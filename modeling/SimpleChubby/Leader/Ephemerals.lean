import SimpleChubby.Leader.EventLists
import SimpleChubby.Leader.Mutex
import SimpleChubby.Leader.Recovery

/-!
# Ephemeral nodes

`client2ephemeral_map` notes the names of the nodes a client has made as
ephemeral, and `fileClose` deletes whatever node has a noted name. A note is
taken back only when its own client deletes the node, under the name that the
freed handle still has, and `fileReopen` makes one for any name. The notes are
right as long as an ephemeral node is deleted by the client that made it only,
through a handle whose memory keeps its name, and no client re-opens another node
as ephemeral.
-/

namespace SimpleChubby

/-! ## Who made a node -/

/-- There is a node of the name. -/
def Store.Has (st : Store) (name : Str) : Prop := st.row name ≠ none

instance (st : Store) (name : Str) : Decidable (st.Has name) :=
  inferInstanceAs (Decidable (st.row name ≠ none))

/-- The mode asks `fileOpen` to make the node. -/
def Mode.creates (mode : Mode) : Bool :=
  mode.has ModeFlag.createDirectory || mode.has ModeFlag.createFile

section Runs

variable (sq : Engine) (strHash : Str → UInt64) (stillNamed : FdRecord → Bool)

/-- The client that made the present incarnation of each node as ephemeral, if
    that is how it was made. -/
def noteMaker (st : Leader Store) (input : Input) (_ : Leader Store) (makers : Str → Option Str) :
    Str → Option Str :=
  match input with
  | .rpc s _ (.fileOpen name mode) =>
    if mode.creates && opensNode (Service.paxos sq strHash stillNamed) st.db name mode then
      Function.update makers name
        (if mode.has ModeFlag.ephemeral then some (st.client s) else none)
    else makers
  | _ => makers

/-- The database deletes the node of a handle. -/
def deletesNode (db : Store) (fd : FileHandler) : Bool :=
  match (leaderDb sq strHash).checkAndDelete fd.fileName fd.instanceNumber db with
  | .ret deleted _ => deleted
  | .stop _ _ => false

/-- The leader, with the makers of its ephemeral nodes. -/
abbrev Service.made (masterSequenceNumber : UInt64) :
    Lts (Leader Store × (Str → Option Str)) Input :=
  ((Service.paxos sq strHash stillNamed).leader .empty masterSequenceNumber).watch (fun _ => none)
    (noteMaker sq strHash stillNamed)

/-- The texts of a request stay inside their tokens: the name of its handle is one
    that `fileOpen` accepts, and neither the content it sets nor the client id it
    locks a node for has a double quote. -/
def Worded (st : Leader Store) (session : SessionId) (request : Request) : Prop :=
  (∀ fd ∈ request.handle, checkName fd.fileName = true) ∧ '"' ∉ request.content ∧
    (request.acquires ≠ none → '"' ∉ st.client session)

/-- The database when a close comes to the node: the lock has been reset, if the
    client has it. -/
def reclaimedDb (st : Leader Store) (session : SessionId) (fd : FileHandler) : Store :=
  if fd.fileName ∈ st.held (st.client session) then
    match (leaderDb sq strHash).resetLockOwner fd.fileName fd.instanceNumber st.db with
    | .ret _ db => db
    | .stop _ db => db
  else st.db

/-- A close that deletes its node finds the name in the record that it has freed. -/
def Recalls (st : Leader Store) (session : SessionId) (fd : FileHandler) : Prop :=
  fd.fileName ∈ st.ephemeral (st.client session) →
    deletesNode sq strHash (reclaimedDb sq strHash st session fd) fd = true →
      stillNamed (st.findFd session fd) = true

/-- So does every close of the loop of `disconnect`, and what it frees the loop does
    not come to. -/
def RecallsAll (session : SessionId) : List FdRecord → Leader Store → Prop
  | [], _ => True
  | p :: rest, st =>
    Recalls sq strHash stillNamed st session p.value ∧
      (p.value.fileName ∈ st.ephemeral (st.client session) →
        deletesNode sq strHash (reclaimedDb sq strHash st session p.value) p.value =
          true → p.value.fileName ∉ rest.map (·.value.fileName)) ∧
      Prog.wp (fileClose (Service.paxos sq strHash stillNamed) p.value session internalXid)
        (fun _ => RecallsAll session rest) (fun _ _ => True) st

/-- A node that is noted as ephemeral is deleted by its maker only, whose note is
    found again, and what is re-opened as ephemeral the client has made as such. -/
def ByMaker (w : Leader Store × (Str → Option Str)) (session : SessionId) : Request → Prop
  | .fileDelete fd => deletesNode sq strHash w.1.db fd = true →
      ∀ maker ∈ w.2 fd.fileName, fd.fileName ∈ w.1.ephemeral maker →
        maker = w.1.client session ∧ stillNamed (w.1.findFd session fd) = true
  | .fileClose fd => Recalls sq strHash stillNamed w.1 session fd
  | .fileReopen fd mode => mode.has ModeFlag.ephemeral = true →
      w.1.db.Has fd.fileName ∧ w.2 fd.fileName = some (w.1.client session)
  | _ => True

/-- What every input of a run meets. -/
def Kept (w : Leader Store × (Str → Option Str)) : Input → Prop
  | .rpc s _ request => Worded w.1 s request ∧ ByMaker sq strHash stillNamed w s request
  | .disconnect s => RecallsAll sq strHash stillNamed s (w.1.fds s)
      ((w.1.logged [.disconnected s]).touchFds s)
  | .initializeLeader => True

/-- An ephemeral node of a client is one that it has made as such, and its
    `fileClose` and `disconnect` delete no others. -/
structure EphemeralExact (ok : Leader Store × (Str → Option Str) → Input → Prop)
    (w : Leader Store × (Str → Option Str)) : Prop where
  marked : ∀ c f, f ∈ w.1.ephemeral c → w.1.db.Has f ∧ w.2 f = some c
  closes : ∀ s x fd st', ok w (.rpc s x (.fileClose fd)) →
    Leader.step (Service.paxos sq strHash stillNamed) (.rpc s x (.fileClose fd)) w.1 = some st' →
      ∀ f, w.1.db.Has f → ¬ st'.db.Has f → w.2 f = some (w.1.client s)
  leaves : ∀ s st', ok w (.disconnect s) →
    Leader.step (Service.paxos sq strHash stillNamed) (.disconnect s) w.1 = some st' →
      ∀ f, w.1.db.Has f → ¬ st'.db.Has f → w.2 f = some (w.1.client s)

end Runs

instance (st : Leader Store) (session : SessionId) (request : Request) :
    Decidable (Worded st session request) :=
  inferInstanceAs (Decidable ((∀ fd ∈ request.handle, checkName fd.fileName = true) ∧
    '"' ∉ request.content ∧ (request.acquires ≠ none → '"' ∉ st.client session)))

section Decisions

variable (sq : Engine) (strHash : Str → UInt64) (stillNamed : FdRecord → Bool)

instance (st : Leader Store) (session : SessionId) (fd : FileHandler) :
    Decidable (Recalls sq strHash stillNamed st session fd) :=
  inferInstanceAs (Decidable (_ → _ → _))

instance decidableRecallsAll (session : SessionId) :
    ∀ l st, Decidable (RecallsAll sq strHash stillNamed session l st)
  | [], _ => .isTrue trivial
  | _ :: rest, _ =>
    have : ∀ st, Decidable (RecallsAll sq strHash stillNamed session rest st) :=
      decidableRecallsAll session rest
    inferInstanceAs (Decidable (_ ∧ _ ∧ _))

instance (w : Leader Store × (Str → Option Str)) (session : SessionId) :
    ∀ request, Decidable (ByMaker sq strHash stillNamed w session request)
  | .fileDelete fd => inferInstanceAs (Decidable (deletesNode sq strHash w.1.db fd =
      true → ∀ maker ∈ w.2 fd.fileName, fd.fileName ∈ w.1.ephemeral maker →
        maker = w.1.client session ∧ stillNamed (w.1.findFd session fd) = true))
  | .fileClose fd => inferInstanceAs (Decidable (Recalls sq strHash stillNamed w.1 session fd))
  | .fileReopen fd mode => inferInstanceAs (Decidable (mode.has ModeFlag.ephemeral = true →
      w.1.db.Has fd.fileName ∧ w.2 fd.fileName = some (w.1.client session)))
  | .fileOpen _ _ | .getContentsAndStat _ | .setContents _ _ | .acquire _ | .tryAcquire _
  | .release _ | .startSession _ => inferInstanceAs (Decidable True)

instance (w : Leader Store × (Str → Option Str)) :
    ∀ input, Decidable (Kept sq strHash stillNamed w input)
  | .rpc s _ request => inferInstanceAs (Decidable (Worded w.1 s request ∧
      ByMaker sq strHash stillNamed w s request))
  | .disconnect s => inferInstanceAs (Decidable (RecallsAll sq strHash stillNamed s (w.1.fds s) _))
  | .initializeLeader => inferInstanceAs (Decidable True)

end Decisions

/-! ## The nodes after a call -/

section Nodes

variable {sq : Engine} {strHash : Str → UInt64} {stillNamed : FdRecord → Bool} {st db : Store}
  {name : Str}

theorem Store.has_iff_lock : st.Has name ↔ st.lock name ≠ none := by
  unfold Store.Has Store.lock
  rw [ne_eq, ne_eq, Option.map_eq_none_iff]

theorem Store.has_of_lock (h : db.lock = st.lock) (g : Str) : db.Has g ↔ st.Has g := by
  rw [Store.has_iff_lock, Store.has_iff_lock, h]

/-- A change of the lock columns of a node makes and removes none. -/
theorem Store.has_of_update {l l' : NodeLock} (hlock : st.lock name = some l)
    (h : db.lock = Function.update st.lock name (some l')) (g : Str) : db.Has g ↔ st.Has g := by
  rw [Store.has_iff_lock, Store.has_iff_lock, h]
  by_cases hg : g = name
  · subst hg
    simp [hlock]
  · rw [Function.update_of_ne hg]

theorem LockTakes.has {n : UInt64} {owner : Str} {r : Bool} (hst : st.Ready)
    (h : LockTakes name n owner st (.ret r db)) : db.Ready ∧ ∀ g, db.Has g ↔ st.Has g := by
  cases h with
  | refused _ => exact ⟨hst, fun _ => Iff.rfl⟩
  | taken hready hlock hupdate _ => exact ⟨hready, Store.has_of_update hlock hupdate⟩

theorem LockResets.has {n : UInt64} {r : Bool} (hst : st.Ready)
    (h : LockResets name n st (.ret r db)) : db.Ready ∧ ∀ g, db.Has g ↔ st.Has g := by
  cases h with
  | refused _ => exact ⟨hst, fun _ => Iff.rfl⟩
  | reset hready hlock hupdate => exact ⟨hready, Store.has_of_update hlock hupdate⟩

theorem LockDeletes.has {n : UInt64} {r : Bool} (hst : st.Ready)
    (h : LockDeletes name n st (.ret r db)) :
    db.Ready ∧ ∀ g, db.Has g ↔ st.Has g ∧ (r = true → g ≠ name) := by
  cases h with
  | refused => exact ⟨hst, fun _ => (and_iff_left fun hr => by cases hr).symm⟩
  | deleted hready _ hupdate =>
    refine ⟨hready, fun g => ?_⟩
    rw [Store.has_iff_lock, Store.has_iff_lock, hupdate]
    by_cases hg : g = name
    · subst hg
      simp
    · rw [Function.update_of_ne hg]
      exact (and_iff_left fun _ => hg).symm

/-- What the call of `fileOpen` does to the nodes: it makes the one that it has to
    make, or none. -/
inductive NodeOpens (name : Str) (creates : Bool) (st : Store) :
    Outcome Fault Store (Option UInt64) → Prop
  | same {r : Option UInt64} {db : Store} : db.Ready → (∀ g, db.Has g ↔ st.Has g) →
      (creates = true → r = none) → NodeOpens name creates st (.ret r db)
  | made {n : UInt64} {db : Store} : creates = true → db.Ready → ¬ st.Has name →
      (∀ g, db.Has g ↔ st.Has g ∨ g = name) → NodeOpens name creates st (.ret (some n) db)

theorem Store.has_create (hrow : st.row name = none) (isDir : Bool) (n : UInt64) (g : Str) :
    (st.create name isDir n).Has g ↔ st.Has g ∨ g = name := by
  unfold Store.Has
  rw [Store.row_create hrow]
  split_ifs with hg
  · simp [hg]
  · simp [hg]

theorem nodeOpens_checkAndCreate (hst : st.Ready) (hname : NameOk name) (isDir : Bool) :
    NodeOpens name true st ((leaderDb sq strHash).checkAndCreate name isDir st) := by
  rw [leaderDb_checkAndCreate]
  have hends := ServerDb.checkAndCreate_ends sq strHash hst hname isDir
  generalize ServerDb.checkAndCreate sq strHash name isDir st = o at hends
  cases hends with
  | present _ => exact .same hst (fun _ => Iff.rfl) fun _ => rfl
  | noParent _ _ _ => exact .same hst (fun _ => Iff.rfl) fun _ => rfl
  | fileParent _ _ _ _ => exact .same hst (fun _ => Iff.rfl) fun _ => rfl
  | top hrow _ _ =>
    exact .made rfl (hst.create hname hrow isDir _) (fun hcon => hcon hrow)
      (Store.has_create hrow isDir _)
  | nested hrow _ hp _ _ =>
    have hquote := ServerDb.no_quote_cons (hst.contents _ (Store.row_mem hp)) hname
    refine .made rfl ((hst.create hname hrow isDir _).withContent hquote _ _)
      (fun hcon => hcon hrow) fun g => ?_
    exact (Store.has_of_lock (Store.lock_withContent _ _ _) g).trans
      (Store.has_create hrow isDir _ g)

theorem nodeOpens_openCall (hst : st.Ready) (hname : NameOk name) (mode : Mode) :
    NodeOpens name mode.creates st
      (openCall (Service.paxos sq strHash stillNamed) name mode st) := by
  unfold openCall Mode.creates
  split_ifs with hcreates
  · rw [hcreates]
    exact nodeOpens_checkAndCreate hst hname _
  · rw [Bool.eq_false_iff.mpr hcreates]
    show NodeOpens name false st ((leaderDb sq strHash).checkAndOpen name st)
    rw [leaderDb_checkAndOpen, ServerDb.checkAndOpen_eq sq hname]
    exact .same hst (fun _ => Iff.rfl) fun hcon => by cases hcon

end Nodes

/-! ## What a close does -/

section Closes

variable {sq : Engine} {strHash : Str → UInt64} {stillNamed : FdRecord → Bool}
  {session : SessionId} {xid : Xid}
  {fd : FileHandler} {st st₁ st' : Leader Store} {c : Str}

/-- The names of the handles that are open are in order. -/
def Leader.Named (st : Leader Store) : Prop := ∀ s, ∀ p ∈ st.fds s, NameOk p.value.fileName

/-- Nodes go only with their note for the client, and no note is made. -/
structure Leader.Sheds (st st' : Leader Store) (c : Str) : Prop where
  ready : st'.db.Ready
  has : ∀ g, st'.db.Has g → st.db.Has g
  marks : ∀ c' g, g ∈ st'.ephemeral c' → g ∈ st.ephemeral c'
  gone : ∀ g, st.db.Has g → ¬ st'.db.Has g → g ∈ st.ephemeral c ∧ g ∉ st'.ephemeral c

theorem Leader.Sheds.trans (h : st.Sheds st₁ c) (h' : st₁.Sheds st' c) : st.Sheds st' c where
  ready := h'.ready
  has g hg := h.has g (h'.has g hg)
  marks c' g hg := h.marks c' g (h'.marks c' g hg)
  gone g hg hnot := by
    by_cases hmid : st₁.db.Has g
    · obtain ⟨hmark, hunmarked⟩ := h'.gone g hmid hnot
      exact ⟨h.marks c g hmark, hunmarked⟩
    · obtain ⟨hmark, hunmarked⟩ := h.gone g hg hmid
      exact ⟨hmark, fun hcon => hunmarked (h'.marks c g hcon)⟩

/-- No node goes. -/
theorem Leader.Sheds.of_has (hready : st'.db.Ready) (hhas : ∀ g, st'.db.Has g ↔ st.db.Has g)
    (hmarks : ∀ c' g, g ∈ st'.ephemeral c' → g ∈ st.ephemeral c') : st.Sheds st' c where
  ready := hready
  has g hg := (hhas g).mp hg
  marks := hmarks
  gone g hg hnot := absurd ((hhas g).mpr hg) hnot

theorem ReleaseEnds.has
    (h : ReleaseEnds (Service.paxos sq strHash stillNamed) session xid fd st (.ret () st'))
    (hready : st.db.Ready) (hname : NameOk fd.fileName) :
    st'.db.Ready ∧ ∀ g, st'.db.Has g ↔ st.db.Has g := by
  have hspec := lock_resetLockOwner sq strHash hready hname fd.instanceNumber
  cases h with
  | @threw db _ hdb =>
    have hthrew : LockResets fd.fileName fd.instanceNumber st.db (.stop .exception db) :=
      hdb ▸ hspec
    cases hthrew
  | @refused db _ hdb =>
    have hresets : LockResets fd.fileName fd.instanceNumber st.db (.ret false db) := hdb ▸ hspec
    exact hresets.has hready
  | @released db st₁ _ hdb hoff =>
    have hresets : LockResets fd.fileName fd.instanceNumber st.db (.ret true db) := hdb ▸ hspec
    have hkept : st₁.db = db := hoff.db
    show st₁.db.Ready ∧ ∀ g, st₁.db.Has g ↔ st.db.Has g
    rw [hkept]
    exact hresets.has hready

theorem ReclaimEnds.has {clientId : Str}
    (h : ReclaimEnds (Service.paxos sq strHash stillNamed) session fd clientId st (.ret () st'))
    (hready : st.db.Ready) (hname : NameOk fd.fileName) :
    st'.db.Ready ∧ ∀ g, st'.db.Has g ↔ st.db.Has g := by
  cases h with
  | notHeld _ => exact ⟨hready, fun _ => Iff.rfl⟩
  | held _ hr => exact hr.has hready hname

/-- `fileDelete` takes back the note of its own client, if it finds the name. -/
theorem DeleteEnds.nodes {r : Except Unit Unit}
    (h : DeleteEnds (Service.paxos sq strHash stillNamed) session xid fd st (.ret r st'))
    (hready : st.db.Ready) (hname : NameOk fd.fileName) :
    st'.db.Ready ∧ (∀ g, st'.db.Has g → st.db.Has g) ∧
      (∀ c' g, g ∈ st'.ephemeral c' → g ∈ st.ephemeral c') ∧
      ∀ g, st.db.Has g → ¬ st'.db.Has g → g = fd.fileName ∧ deletesNode sq strHash st.db fd = true ∧
        (stillNamed (st.findFd session fd) = true → g ∉ st'.ephemeral (st.client session)) := by
  have hspec := lock_checkAndDelete sq strHash hready hname fd.instanceNumber
  cases h with
  | @threw db _ hdb =>
    have hthrew : LockDeletes fd.fileName fd.instanceNumber st.db (.stop .exception db) :=
      hdb ▸ hspec
    cases hthrew
  | @refused db _ hdb =>
    have hdeletes : LockDeletes fd.fileName fd.instanceNumber st.db (.ret false db) := hdb ▸ hspec
    obtain ⟨hready', hhas⟩ := hdeletes.has hready
    refine ⟨hready', fun g hg => ((hhas g).mp hg).1, fun _ _ hg => hg, fun g hg hnot => ?_⟩
    exact absurd ((hhas g).mpr ⟨hg, fun hcon => by cases hcon⟩) hnot
  | @deleted db _ hdb =>
    have hdeletes : LockDeletes fd.fileName fd.instanceNumber st.db (.ret true db) := hdb ▸ hspec
    obtain ⟨hready', hhas⟩ := hdeletes.has hready
    refine ⟨hready', fun g hg => ((hhas g).mp hg).1,
      fun c' g hg => ((Leader.mem_ephemeral_deleted rfl).mp hg).1, fun g hg hnot => ?_⟩
    have hgone : g = fd.fileName := by
      by_contra hne
      exact hnot ((hhas g).mpr ⟨hg, fun _ => hne⟩)
    refine ⟨hgone, ?_, fun hnamed hg' =>
      ((Leader.mem_ephemeral_deleted rfl).mp hg').2 ⟨rfl, hnamed, hgone⟩⟩
    unfold deletesNode
    rw [show (leaderDb sq strHash).checkAndDelete fd.fileName fd.instanceNumber st.db = _ from hdb]

/-- Reclaiming the lock leads to the database in which `Recalls` looks. -/
theorem ReclaimEnds.reclaimedDb
    (h : ReclaimEnds (Service.paxos sq strHash stillNamed) session fd (st.client session)
      (st.entered session fd) (.ret () st')) : st'.db = reclaimedDb sq strHash st session fd := by
  unfold SimpleChubby.reclaimedDb
  cases h with
  | notHeld hheld => rw [if_neg (show fd.fileName ∉ st.held (st.client session) from hheld)]; rfl
  | held hheld hr =>
    rw [if_pos (show fd.fileName ∈ st.held (st.client session) from hheld)]
    cases hr with
    | @threw db _ hdb =>
      rw [show (leaderDb sq strHash).resetLockOwner fd.fileName fd.instanceNumber st.db =
        .stop .exception db from hdb]
      rfl
    | @refused db _ hdb =>
      rw [show (leaderDb sq strHash).resetLockOwner fd.fileName fd.instanceNumber st.db =
        .ret false db from hdb]
      rfl
    | @released db st₁ _ hdb hoff =>
      rw [show (leaderDb sq strHash).resetLockOwner fd.fileName fd.instanceNumber st.db =
        .ret true db from hdb]
      exact hoff.db

theorem CloseEnds.ready
    (h : CloseEnds (Service.paxos sq strHash stillNamed) session xid fd st (.ret () st'))
    (hready : st.db.Ready) (hname : NameOk fd.fileName) : st'.db.Ready := by
  cases h with
  | deletes _ hreclaim _ hdelete =>
    exact (hdelete.nodes (hreclaim.has hready hname).1 hname).1
  | @closes st₁ st₂ _ hreclaim _ hclear =>
    show st₂.db.Ready
    rw [hclear.db]
    exact (hreclaim.has hready hname).1

/-- `fileClose` deletes a node only that is noted for the client of the session. -/
theorem CloseEnds.sheds
    (h : CloseEnds (Service.paxos sq strHash stillNamed) session xid fd st (.ret () st'))
    (hready : st.db.Ready) (hname : NameOk fd.fileName)
    (hrecalls : Recalls sq strHash stillNamed st session fd) :
    st.Sheds st' (st.client session) := by
  have hmarks : ∀ c' g, g ∈ st'.ephemeral c' → g ∈ st.ephemeral c' := fun _ _ hg => h.marks hg
  cases h with
  | @deletes st₁ st₂ hc hreclaim heph hdelete =>
    obtain ⟨hready₁, hhas₁⟩ := hreclaim.has hready hname
    obtain ⟨hready₂, hhas₂, _, hgone⟩ := hdelete.nodes hready₁ hname
    have hclient : (st₁.touchEphemeral (st.client session)).client session = st.client session :=
      hreclaim.client session
    refine ⟨hready₂, fun g hg => (hhas₁ g).mp (hhas₂ g hg), hmarks, fun g hg hnot => ?_⟩
    obtain ⟨rfl, hdeletes, hunmarked⟩ := hgone g ((hhas₁ g).mpr hg) hnot
    have hmarked := hreclaim.mem_ephemeral.mp heph
    have hfound : (st₁.touchEphemeral (st.client session)).findFd session fd =
        st.findFd session fd := Leader.findFd_again (hreclaim.fds session)
    have hdb : (st₁.touchEphemeral (st.client session)).db = reclaimedDb sq strHash st session fd :=
      hreclaim.reclaimedDb
    rw [hdb] at hdeletes
    rw [hclient, hfound] at hunmarked
    exact ⟨hmarked, hunmarked (hrecalls hmarked hdeletes)⟩
  | @closes st₁ st₂ hc hreclaim _ hclear =>
    obtain ⟨hready₁, hhas₁⟩ := hreclaim.has hready hname
    have hdb : st₂.db = st₁.db := hclear.db
    refine .of_has ?_ (fun g => ?_) hmarks
    · show st₂.db.Ready
      rw [hdb]
      exact hready₁
    · show st₂.db.Has g ↔ st.db.Has g
      rw [hdb]
      exact hhas₁ g

theorem closeAll_sheds (l : List FdRecord)
    (h : Prog.forEach (fun p => fileClose (Service.paxos sq strHash stillNamed) p.value session
      internalXid) l st = .ret () st')
    (hready : st.db.Ready) (hnames : ∀ p ∈ l, NameOk p.value.fileName)
    (hrecalls : RecallsAll sq strHash stillNamed session l st) :
    st.Sheds st' (st.client session) := by
  induction l generalizing st with
  | nil =>
    cases h
    exact .of_has hready (fun _ => Iff.rfl) fun _ _ hg => hg
  | cons p rest ih =>
    obtain ⟨st₁, hfirst, hrest⟩ := Prog.forEach_cons_eq_ret.mp h
    have hends : CloseEnds (Service.paxos sq strHash stillNamed) session internalXid p.value st
        (.ret () st₁) := by
      rw [← hfirst]
      exact fileClose_ends _ session internalXid st p.value
    have hsheds := hends.sheds hready (hnames p List.mem_cons_self) hrecalls.1
    have hlater : RecallsAll sq strHash stillNamed session rest st₁ := by
      have hwp := hrecalls.2.2
      unfold Prog.wp at hwp
      rwa [hfirst] at hwp
    have hothers := ih hrest hsheds.ready (fun q hq => hnames q (List.mem_cons_of_mem p hq)) hlater
    have hclient : st₁.client session = st.client session := by
      unfold Leader.client
      rw [hends.sessions]
    rw [hclient] at hothers
    exact hsheds.trans hothers

theorem disconnect_sheds
    (h : disconnect (Service.paxos sq strHash stillNamed) session st = .ret () st')
    (hready : st.db.Ready) (hnamed : st.Named)
    (hrecalls : RecallsAll sq strHash stillNamed session (st.fds session) (st.touchFds session)) :
    st.Sheds st' (st.client session) := by
  rw [disconnect, Prog.modify_bind, Prog.gets_bind] at h
  obtain ⟨_, st₁, hall, hleft⟩ := Prog.bind_eq_ret.mp h
  cases hleft
  have hread : (st.touchFds session).fds session = st.fds session := UMap.get_touch _ _ _
  rw [hread] at hall
  have hsheds := closeAll_sheds _ hall hready (hnamed session) hrecalls
  exact ⟨hsheds.ready, hsheds.has, hsheds.marks, hsheds.gone⟩

end Closes

/-! ## Every step -/

section Steps

variable {sq : Engine} {strHash : Str → UInt64} {stillNamed : FdRecord → Bool}
  {session : SessionId} {xid : Xid}
  {fd : FileHandler} {st st' : Leader Store} {makers : Str → Option Str} {c : Str}

theorem Leader.Named.grow (h : st.Named)
    (hfds : ∀ s, ∀ p ∈ st'.fds s, p ∈ st.fds s ∨ NameOk p.value.fileName) : st'.Named := by
  intro s p hp
  rcases hfds s p hp with hp | hname
  · exact h s p hp
  · exact hname

/-- The handles that are open have names that a request has presented. -/
theorem Handles.named {input : Input}
    (h : Handles (Service.paxos sq strHash stillNamed) st input (.ret () st')) (hnamed : st.Named)
    (hnames : ∀ s x request, input = .rpc s x request →
      ∀ fd ∈ request.handle, checkName fd.fileName = true) : st'.Named := by
  have hone : ∀ {s : SessionId} {fd : FileHandler} {t : SessionId}, checkName fd.fileName = true →
      ∀ p, (p ∈ st.fds t ∨ t = s ∧ p.value = fd) → p ∈ st.fds t ∨ NameOk p.value.fileName := by
    rintro s fd t hname p (hp | ⟨_, rfl⟩)
    · exact Or.inl hp
    · exact Or.inr (checkName_iff.mp hname)
  cases h with
  | @fileOpen s x name mode _ ho =>
    cases ho with
    | badArg _ _ => exact hnamed
    | failed _ _ _ => exact hnamed
    | opened _ hname _ =>
      refine hnamed.grow fun t p hp => ?_
      rcases Leader.mem_openFd.mp hp with hp | ⟨_, rfl⟩
      · exact Or.inl hp
      · exact Or.inr (checkName_iff.mp hname)
  | @fileClose s x fd _ ho =>
    exact hnamed.grow fun t p hp => hone (hnames _ _ _ rfl fd rfl) p (ho.mem_of_fds hp)
  | @fileDelete s x fd _ ho =>
    exact hnamed.grow fun t p hp => hone (hnames _ _ _ rfl fd rfl) p (ho.mem_of_fds hp)
  | @getContentsAndStat s x fd _ ho =>
    cases ho with
    | answered _ _ _ =>
      exact hnamed.grow fun t p hp => hone (hnames _ _ _ rfl fd rfl) p (Leader.mem_of_foundFd hp)
  | @setContents s x fd content _ ho =>
    cases ho with
    | failed _ =>
      exact hnamed.grow fun t p hp => hone (hnames _ _ _ rfl fd rfl) p (Leader.mem_of_foundFd hp)
    | written _ =>
      exact hnamed.grow fun t p hp => hone (hnames _ _ _ rfl fd rfl) p (Leader.mem_of_foundFd hp)
  | @acquire s x fd _ ho =>
    cases ho with
    | _ =>
      exact hnamed.grow fun t p hp => hone (hnames _ _ _ rfl fd rfl) p (Leader.mem_of_foundFd hp)
  | @tryAcquire s x fd _ ho =>
    cases ho with
    | _ =>
      exact hnamed.grow fun t p hp => hone (hnames _ _ _ rfl fd rfl) p (Leader.mem_of_foundFd hp)
  | @release s x fd _ ho =>
    exact hnamed.grow fun t p hp => hone (hnames _ _ _ rfl fd rfl) p (ho.mem_of_fds hp)
  | startSession ho =>
    cases ho with
    | refused _ => exact hnamed
    | started _ => exact hnamed
  | @fileReopen s x fd mode =>
    refine hnamed.grow fun t p hp => ?_
    rcases Leader.mem_openFd.mp hp with hp | ⟨_, rfl⟩
    · exact Or.inl hp
    · exact Or.inr (checkName_iff.mp (hnames _ _ _ rfl fd rfl))
  | @disconnect s _ ho =>
    cases ho with
    | left hall =>
      refine hnamed.grow fun t p hp => ?_
      rcases hall.mem_of_fds rfl hp with hp | ⟨_, q, hq, hvalue⟩
      · have hread : ((st.logged [.disconnected s]).touchFds s).fds t = st.fds t :=
          UMap.get_touch _ _ _
        rw [hread] at hp
        exact Or.inl hp
      · rw [hvalue]
        exact Or.inr (hnamed s q hq)
  | initializeLeader ho =>
    cases ho with
    | @initialized files db _ =>
      intro t p hp
      unfold Leader.fds at hp
      rw [(Leader.recovered_fds files _).2.1] at hp
      cases hp

/-- A request that looks at nodes or changes their locks neither makes nor deletes one. -/
theorem ReadEnds.sheds (h : ReadEnds (Service.paxos sq strHash stillNamed) session xid fd st
    (.ret () st'))
    (hready : st.db.Ready) (hname : NameOk fd.fileName) : st.Sheds st' c := by
  obtain ⟨r, db, body, hkeeps, rfl⟩ := h.keeps hready hname
  cases hkeeps with
  | kept hready' hlock => exact .of_has hready' (Store.has_of_lock hlock) fun _ _ hg => hg

theorem WriteEnds.sheds {content : Str}
    (h : WriteEnds (Service.paxos sq strHash stillNamed) session xid fd content st (.ret () st'))
    (hready : st.db.Ready) (hname : NameOk fd.fileName) (hquote : '"' ∉ content) :
    st.Sheds st' c := by
  obtain ⟨r, db, body, after, hkeeps, _, rfl⟩ := h.keeps hready hname hquote
  cases hkeeps with
  | kept hready' hlock => exact .of_has hready' (Store.has_of_lock hlock) fun _ _ hg => hg

theorem AcquireEnds.sheds {busy : Leader Store → Leader Store}
    (h : AcquireEnds (Service.paxos sq strHash stillNamed) session xid fd busy st (.ret () st'))
    (hready : st.db.Ready) (hname : NameOk fd.fileName) (hquote : '"' ∉ st.client session)
    (hbusy : ∀ st₁, (busy st₁).db = st₁.db ∧
      (busy st₁).client2ephemeralMap = st₁.client2ephemeralMap) : st.Sheds st' c := by
  have hspec := lock_testAndSetLockOwner sq strHash hready hname fd.instanceNumber hquote
  cases h with
  | @threw db _ hdb =>
    have hthrew : LockTakes fd.fileName fd.instanceNumber (st.client session) st.db
      (.stop .exception db) := hdb ▸ hspec
    cases hthrew
  | @taken db _ hdb _ =>
    have htakes : LockTakes fd.fileName fd.instanceNumber (st.client session) st.db
      (.ret true db) := hdb ▸ hspec
    obtain ⟨hready', hhas⟩ := htakes.has hready
    exact .of_has hready' hhas fun _ _ hg => hg
  | @busy db _ hdb =>
    have htakes : LockTakes fd.fileName fd.instanceNumber (st.client session) st.db
      (.ret false db) := hdb ▸ hspec
    obtain ⟨hready', hhas⟩ := htakes.has hready
    obtain ⟨hdb', hmarks⟩ := hbusy ((st.entered session fd).setDb db)
    refine .of_has ?_ (fun g => ?_) fun c' g hg => ?_
    · rw [hdb']
      exact hready'
    · rw [hdb']
      exact hhas g
    · unfold Leader.ephemeral at hg ⊢
      rw [hmarks] at hg
      exact hg

theorem ReleaseEnds.sheds
    (h : ReleaseEnds (Service.paxos sq strHash stillNamed) session xid fd st (.ret () st'))
    (hready : st.db.Ready) (hname : NameOk fd.fileName) : st.Sheds st' c := by
  obtain ⟨hready', hhas⟩ := h.has hready hname
  refine .of_has hready' hhas fun c' g hg => ?_
  cases h with
  | threw _ _ => exact hg
  | refused _ _ => exact hg
  | released _ _ hoff =>
    unfold Leader.ephemeral at hg ⊢
    rw [Leader.logged_client2ephemeralMap, hoff.marks] at hg
    exact hg

/-- The invariant. -/
structure MarksOk (w : Leader Store × (Str → Option Str)) : Prop where
  ready : w.1.db.Ready
  named : w.1.Named
  marked : ∀ c f, f ∈ w.1.ephemeral c → w.1.db.Has f ∧ w.2 f = some c

/-- A node that goes takes its note with it. -/
theorem MarksOk.sheds (h : MarksOk (st, makers)) (hsheds : st.Sheds st' c) (hnamed : st'.Named) :
    MarksOk (st', makers) where
  ready := hsheds.ready
  named := hnamed
  marked c' f hf := by
    obtain ⟨hhas, hmaker⟩ := h.marked c' f (hsheds.marks c' f hf)
    refine ⟨?_, hmaker⟩
    by_contra hnot
    obtain ⟨hmark, hunmarked⟩ := hsheds.gone f hhas hnot
    have hsame := (h.marked c f hmark).2.symm.trans hmaker
    rw [Option.some.inj hsame] at hunmarked
    exact hunmarked hf

/-- A node that is made has no note left over. -/
theorem MarksOk.made (h : MarksOk (st, makers)) {name : Str} (hnot : ¬ st.db.Has name) {db : Store}
    (hhas : ∀ g, db.Has g ↔ st.db.Has g ∨ g = name) (maker : Option Str) (f : Str)
    (hf : f ∈ st.ephemeral c) : db.Has f ∧ Function.update makers name maker f = some c := by
  obtain ⟨hold, hmaker⟩ := h.marked c f hf
  have hne : f ≠ name := by
    rintro rfl
    exact hnot hold
  rw [Function.update_of_ne hne]
  exact ⟨(hhas f).mpr (Or.inl hold), hmaker⟩

/-- Only a `fileOpen` that makes a node is noted. -/
theorem noteMaker_same {name : Str} {mode : Mode}
    (h : ¬ (mode.creates = true ∧ opensNode (Service.paxos sq strHash stillNamed) st.db name mode =
      true)) :
    noteMaker sq strHash stillNamed st (.rpc session xid (.fileOpen name mode)) st' makers =
      makers := by
  refine if_neg ?_
  rw [Bool.and_eq_true]
  exact h

theorem noteMaker_made {name : Str} {mode : Mode} (hcreates : mode.creates = true)
    (hopens : opensNode (Service.paxos sq strHash stillNamed) st.db name mode = true) :
    noteMaker sq strHash stillNamed st (.rpc session xid (.fileOpen name mode)) st' makers =
      Function.update makers name
        (if mode.has ModeFlag.ephemeral then some (st.client session) else none) := by
  refine if_pos ?_
  rw [hcreates, hopens]
  rfl

theorem OpenEnds.marksOk {name : Str} {mode : Mode}
    (h : OpenEnds (Service.paxos sq strHash stillNamed) session xid name mode st (.ret () st'))
    (hvalid : (mode.has ModeFlag.createDirectory && mode.has ModeFlag.createFile) = false)
    (hok : MarksOk (st, makers)) (hnamed : st'.Named) :
    MarksOk (st', noteMaker sq strHash stillNamed st
      (.rpc session xid (.fileOpen name mode)) st' makers) := by
  have hspec : checkName name = true → NodeOpens name mode.creates st.db
      (openCall (Service.paxos sq strHash stillNamed) name mode st.db) :=
    fun hname => nodeOpens_openCall hok.ready (checkName_iff.mp hname) mode
  cases h with
  | badArg _ hbad =>
    have hnot : opensNode (Service.paxos sq strHash stillNamed) st.db name mode ≠ true := by
      intro hcon
      obtain ⟨hname, hboth, _⟩ := opensNode_iff.mp hcon
      rcases hbad with hbad | hbad
      · rw [hname] at hbad
        cases hbad
      · rw [hboth] at hbad
        cases hbad
    rw [noteMaker_same fun hcon => hnot hcon.2]
    exact ⟨hok.ready, hnamed, hok.marked⟩
  | @failed r db code hc hname hcall =>
    cases hcall with
    | threw hcall =>
      have hnode : NodeOpens name mode.creates st.db (.stop .exception db) := hcall ▸ hspec hname
      cases hnode
    | @returned r _ hcall =>
      have hnode : NodeOpens name mode.creates st.db (.ret r db) := hcall ▸ hspec hname
      cases hnode with
      | same hready hhas hnone =>
        have hnot : ¬ (mode.creates = true ∧
            opensNode (Service.paxos sq strHash stillNamed) st.db name mode = true) := by
          rintro ⟨hcreates, hopens⟩
          obtain ⟨_, _, n, db', hcall'⟩ := opensNode_iff.mp hopens
          obtain rfl := hnone hcreates
          rw [show openCall (Service.paxos sq strHash stillNamed) name mode st.db =
            _ from hcall] at hcall'
          cases hcall'
        rw [noteMaker_same hnot]
        exact hok.sheds (c := []) (.of_has hready hhas fun _ _ hg => hg) hnamed
      | made hcreates hready hnew hhas =>
        have hopens : opensNode (Service.paxos sq strHash stillNamed) st.db name mode = true :=
          opensNode_iff.mpr ⟨hname, hvalid, _, _, hcall⟩
        rw [noteMaker_made hcreates hopens]
        exact ⟨hready, hnamed, fun c f hf => hok.made hnew hhas _ f hf⟩
  | @opened n db hc hname hcall =>
    have hopens : opensNode (Service.paxos sq strHash stillNamed) st.db name mode = true :=
      opensNode_iff.mpr ⟨hname, hvalid, n, db, hcall⟩
    have hnode : NodeOpens name mode.creates st.db (.ret (some n) db) := hcall ▸ hspec hname
    have hmarks : ∀ events c f,
        f ∈ ((st.opened (Service.paxos sq strHash stillNamed) session xid name mode n db).logged
          events).ephemeral c ↔ f ∈ st.ephemeral c ∨
            (ephemeralMode mode).has ModeFlag.ephemeral = true ∧ c = st.client session ∧ f = name :=
      fun _ c f => Leader.mem_markedEphemeral
    cases hnode with
    | same hready hhas hnone =>
      -- an existing node is opened, which notes nothing
      have hcreates : ¬ mode.creates = true := fun hcon => by cases hnone hcon
      have hzero : ephemeralMode mode = 0 := if_neg hcreates
      rw [noteMaker_same fun hcon => hcreates hcon.1]
      refine ⟨hready, hnamed, fun c f hf => ?_⟩
      rcases (hmarks _ c f).mp hf with hf | ⟨hmode, _⟩
      · obtain ⟨hold, hmaker⟩ := hok.marked c f hf
        exact ⟨(hhas f).mpr hold, hmaker⟩
      · rw [hzero] at hmode
        cases hmode
    | made hcreates hready hnew hhas =>
      have hsame : ephemeralMode mode = mode := if_pos hcreates
      rw [noteMaker_made hcreates hopens]
      refine ⟨hready, hnamed, fun c f hf => ?_⟩
      rcases (hmarks _ c f).mp hf with hf | ⟨hmode, rfl, rfl⟩
      · exact hok.made hnew hhas _ f hf
      · rw [hsame] at hmode
        refine ⟨(hhas f).mpr (Or.inr rfl), ?_⟩
        dsimp only
        rw [Function.update_self, if_pos hmode]

/-- Every input of such a run keeps the invariant. -/
theorem step_marksOk {input : Input} (hkept : Kept sq strHash stillNamed (st, makers) input)
    (h : Leader.step (Service.paxos sq strHash stillNamed) input st = some st')
    (hok : MarksOk (st, makers)) :
    MarksOk (st', noteMaker sq strHash stillNamed st input st' makers) := by
  have hends := step_ends _ h
  have hnamed : st'.Named := by
    refine hends.named hok.named fun s x request hinput fd hfd => ?_
    subst hinput
    exact hkept.1.1 fd hfd
  have hname : ∀ {s x request} {fd : FileHandler}, input = .rpc s x request →
      request.handle = some fd → NameOk fd.fileName := by
    rintro s x request fd rfl hfd
    exact checkName_iff.mp (hkept.1.1 fd hfd)
  have hlogged : ∀ {l}, MarksOk (st.logged l, makers) := ⟨hok.ready, hok.named, hok.marked⟩
  cases hends with
  | @fileOpen s x name mode _ ho =>
    by_cases hboth : (mode.has ModeFlag.createDirectory && mode.has ModeFlag.createFile) = true
    · have hnot : opensNode (Service.paxos sq strHash stillNamed) st.db name mode ≠ true := by
        intro hcon
        rw [(opensNode_iff.mp hcon).2.1] at hboth
        cases hboth
      rw [noteMaker_same fun hcon => hnot hcon.2, step_both hboth h]
      exact ⟨hok.ready, hok.named, hok.marked⟩
    · exact ho.marksOk (Bool.eq_false_iff.mpr hboth) hlogged hnamed
  | fileClose ho => exact hlogged.sheds (ho.sheds hok.ready (hname rfl rfl) hkept.2) hnamed
  | @fileDelete s x fd _ ho =>
    obtain ⟨hready, hhas, hmarks, hgone⟩ := ho.nodes hok.ready (hname rfl rfl)
    refine ⟨hready, hnamed, fun c f hf => ?_⟩
    obtain ⟨hold, hmaker⟩ := hok.marked c f (hmarks c f hf)
    refine ⟨?_, hmaker⟩
    by_contra hnot
    obtain ⟨rfl, hdeletes, hunmarked⟩ := hgone f hold hnot
    obtain ⟨hmine, hstill⟩ := hkept.2 hdeletes c hmaker (hmarks c _ hf)
    have hfound : st.findFd s fd = (st.logged [.call s x (.fileDelete fd)]).findFd s fd := rfl
    rw [show c = (st.logged [.call s x (.fileDelete fd)]).client s from hmine] at hf
    exact hunmarked (hfound ▸ hstill) hf
  | getContentsAndStat ho =>
    exact hlogged.sheds (c := []) (ho.sheds hok.ready (hname rfl rfl)) hnamed
  | setContents ho =>
    exact hlogged.sheds (c := []) (ho.sheds hok.ready (hname rfl rfl) hkept.1.2.1) hnamed
  | acquire ho =>
    have hquote := hkept.1.2.2 (Option.some_ne_none _)
    exact hlogged.sheds (c := []) (ho.sheds hok.ready (hname rfl rfl) hquote fun _ => ⟨rfl, rfl⟩)
      hnamed
  | tryAcquire ho =>
    have hquote := hkept.1.2.2 (Option.some_ne_none _)
    exact hlogged.sheds (c := []) (ho.sheds hok.ready (hname rfl rfl) hquote fun _ => ⟨rfl, rfl⟩)
      hnamed
  | release ho => exact hlogged.sheds (c := []) (ho.sheds hok.ready (hname rfl rfl)) hnamed
  | startSession ho =>
    cases ho with
    | refused _ => exact ⟨hok.ready, hnamed, hok.marked⟩
    | started _ => exact ⟨hok.ready, hnamed, hok.marked⟩
  | @fileReopen s x fd mode =>
    refine ⟨hok.ready, hnamed, fun c f hf => ?_⟩
    have hmarked : f ∈ (st.markedEphemeral (st.client s) fd.fileName mode).ephemeral c := hf
    rcases Leader.mem_markedEphemeral.mp hmarked with hold | ⟨hmode, rfl, rfl⟩
    · exact hok.marked c f hold
    · exact hkept.2 hmode
  | disconnect _ =>
    exact hlogged.sheds (disconnect_sheds (disconnect_of_step h) hok.ready hok.named hkept) hnamed
  | initializeLeader ho =>
    cases ho with
    | @initialized files db hstates =>
      obtain rfl : db = st.db := by
        have hread : (Service.paxos sq strHash stillNamed).db.getStates st.db =
            .ret (st.db.owners ++ st.db.owners) st.db := leaderDb_getStates sq strHash _
        rw [show (Service.paxos sq strHash stillNamed).db.getStates st.db = _ from hstates] at hread
        cases hread
        rfl
      obtain ⟨held, hrecovered⟩ :=
        ((st.logged [.initialized]).cleared.setDb st.db).recovered_eq files
      rw [hrecovered] at hnamed ⊢
      refine ⟨hok.ready, hnamed, fun c f hf => ?_⟩
      exact absurd hf (Finset.notMem_empty f)

end Steps

/-! ## Every run -/

/-- In every run in which a node that is noted as ephemeral is deleted by its maker
    only, whose note is found again, and a node re-opened as ephemeral by its maker
    only, the notes are right, and a client's closes and disconnects delete only nodes
    it has made as ephemeral. -/
theorem ephemeralExact_reachable (sq : Engine) (strHash : Str → UInt64)
    (stillNamed : FdRecord → Bool)
    (masterSequenceNumber : UInt64) (w : Leader Store × (Str → Option Str))
    (h : (Service.made sq strHash stillNamed masterSequenceNumber).Reach
      (Kept sq strHash stillNamed) w) :
    EphemeralExact sq strHash stillNamed (Kept sq strHash stillNamed) w := by
  have hok : MarksOk w := by
    refine h.invariant (I := MarksOk) ?_ ?_
    · rintro ⟨st, makers⟩ ⟨rfl, rfl⟩
      refine ⟨Store.ready_empty, fun s p hp => ?_, fun c f hf => ?_⟩
      · cases hp
      · exact absurd hf (Finset.notMem_empty f)
    · rintro ⟨st, makers⟩ ⟨st', makers'⟩ input _ hok hkept hstep
      obtain ⟨hst, hmakers⟩ := Lts.watch_step hstep
      rw [show makers' = noteMaker sq strHash stillNamed st input st' makers from hmakers]
      exact step_marksOk hkept hst hok
  refine ⟨hok.marked, fun s x fd st' hkept hstep f hhas hnot => ?_,
    fun s st' hkept hstep f hhas hnot => ?_⟩
  · cases step_ends _ hstep with
    | fileClose ho =>
      have hsheds := ho.sheds hok.ready (checkName_iff.mp (hkept.1.1 fd rfl)) hkept.2
      exact (hok.marked _ f (hsheds.gone f hhas hnot).1).2
  · have hsheds := disconnect_sheds (disconnect_of_step hstep) hok.ready hok.named hkept
    exact (hok.marked _ f (hsheds.gone f hhas hnot).1).2

/-- A client makes an ephemeral node, another opens it, and the maker deletes it. -/
def makesAndDeletes : List Input :=
  [.rpc 1 1 (.startSession ['1']), .rpc 2 1 (.startSession ['2']),
    .rpc 1 2 (.fileOpen ['/', 'f'] (ModeFlag.createFile ||| ModeFlag.ephemeral)),
    .rpc 2 2 (.fileOpen ['/', 'f'] 0),
    .rpc 1 3 (.fileDelete ⟨0, 0, ['/', 'f'], 1, false⟩),
    .rpc 2 3 (.fileOpen ['/', 'f'] ModeFlag.createFile),
    .rpc 1 4 (.fileOpen ['/', 'g'] (ModeFlag.createFile ||| ModeFlag.ephemeral))]

theorem ephemeralExact_makesAndDeletes :
    ∃ w, (Service.made .refusing (fun _ => 0) inlineNamed 0).exec
      (Kept .refusing (fun _ => 0) inlineNamed) makesAndDeletes
      (.fresh .empty 0, fun _ => none) = some w ∧
        EphemeralExact .refusing (fun _ => 0) inlineNamed
          (Kept .refusing (fun _ => 0) inlineNamed) w := by
  have hrun : ((Service.made .refusing (fun _ => 0) inlineNamed 0).exec
      (Kept .refusing (fun _ => 0) inlineNamed)
      makesAndDeletes (.fresh .empty 0, fun _ => none)).isSome = true := by decide +kernel
  obtain ⟨w, hw⟩ := Option.isSome_iff_exists.mp hrun
  have hinit :
      (Service.made .refusing (fun _ => 0) inlineNamed 0).init (.fresh .empty 0, fun _ => none) :=
    ⟨rfl, rfl⟩
  exact ⟨w, hw, ephemeralExact_reachable _ _ _ _ w (Lts.Reach.exec (.init hinit) hw)⟩

/-- A client's ephemeral node is deleted by another client and made anew by it, to
    stay; the first client opens it and closes it. -/
def madeAnew : List Input :=
  [.rpc 1 1 (.startSession ['1']), .rpc 2 1 (.startSession ['2']),
    .rpc 1 2 (.fileOpen ['/', 'f'] (ModeFlag.createFile ||| ModeFlag.ephemeral)),
    .rpc 2 2 (.fileOpen ['/', 'f'] 0),
    .rpc 2 3 (.fileDelete ⟨0, 0, ['/', 'f'], 1, false⟩),
    .rpc 2 4 (.fileOpen ['/', 'f'] ModeFlag.createFile),
    .rpc 1 3 (.fileOpen ['/', 'f'] 0)]

/-- The close deletes the node of the other client. -/
theorem not_ephemeralExact :
    ¬ ∀ w, (Service.made .refusing (fun _ => 0) inlineNamed 0).Reach (fun _ _ => True) w →
      EphemeralExact .refusing (fun _ => 0) inlineNamed (fun _ _ => True) w := by
  intro hall
  have hrun : (((Service.made .refusing (fun _ => 0) inlineNamed 0).exec (fun _ _ => True) madeAnew
      (.fresh .empty 0, fun _ => none)).bind fun w =>
        (Leader.step (Service.paxos .refusing (fun _ => 0) inlineNamed)
          (.rpc 1 4 (.fileClose ⟨0, 0, ['/', 'f'], 2, false⟩)) w.1).map fun st' =>
            (decide (w.1.db.Has ['/', 'f']), decide (st'.db.Has ['/', 'f']), w.2 ['/', 'f'])) =
      some (true, false, none) := by decide +kernel
  obtain ⟨w, hw, hclose⟩ := Option.bind_eq_some_iff.mp hrun
  obtain ⟨st', hst', hread⟩ := Option.map_eq_some_iff.mp hclose
  simp only [Prod.mk.injEq, decide_eq_true_eq, decide_eq_false_iff_not] at hread
  obtain ⟨hhas, hnot, hmaker⟩ := hread
  have hinit :
      (Service.made .refusing (fun _ => 0) inlineNamed 0).init (.fresh .empty 0, fun _ => none) :=
    ⟨rfl, rfl⟩
  have hexact :=
    (hall w (Lts.Reach.exec (.init hinit) hw)).closes 1 4 _ st' trivial hst' _ hhas hnot
  rw [hmaker] at hexact
  cases hexact

end SimpleChubby
