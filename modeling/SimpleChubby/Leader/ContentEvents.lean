import SimpleChubby.Leader.Ephemerals
import SimpleChubby.Leader.Recovery
import SimpleChubby.ServerDb.Generations

/-!
# Content events

The `CONTENT_MODIFIED` events of a file against the changes of its content: its
stored generation number grows, or it is deleted. Every change is announced.
What is announced without one is the parent of a node that is opened and not
made, and a node whose last generation number is used up.
-/

namespace SimpleChubby

variable {δ : Type}

/-! ## The events and the changes -/

/-- The session that an event tells that the file is modified. -/
def Action.modified (f : Str) : Action → Option SessionId
  | .event session .contentModified g => if g = f then some session else none
  | _ => none

/-- The sessions that are told that the file is modified. -/
def toldModified (f : Str) (l : List Action) : List SessionId := l.filterMap (Action.modified f)

/-- The generation number grows, or it goes with its file. -/
def Changes : Option Int → Option Int → Prop
  | some n, some m => n < m
  | some _, none => True
  | none, _ => False

instance : ∀ n m, Decidable (Changes n m)
  | some n, some m => inferInstanceAs (Decidable (n < m))
  | some _, none => inferInstanceAs (Decidable True)
  | none, _ => inferInstanceAs (Decidable False)

/-- A step tells every entry of the content event list of a file that it is modified
    if its content changes, and nobody otherwise. -/
def ReportsContent (st st' : Leader Store) : Prop :=
  ∀ f, toldModified f (st'.log.drop st.log.length) =
    if Changes (st.db.generation f) (st'.db.generation f) then st.file2contentChangeMap.get f
    else []

/-! ## The condition -/

/-- Somebody is told when the file is announced. -/
def Leader.Heard (st : Leader δ) (f : Str) : Prop := st.file2contentChangeMap.get f ≠ []

/-- The parent of the node is announced to somebody, and has the last generation number. -/
def Leader.WrapsParent (st : Leader Store) (name : Str) : Prop :=
  getParentName name ≠ root ∧ st.Heard (getParentName name) ∧
    st.db.generation (getParentName name) = some lastGeneration

/-- The database in which `fileClose` deletes an ephemeral node: if the lock is noted
    for the client, it has been reset. -/
def Leader.freed (st : Leader Store) (session : SessionId) (fd : FileHandler) : Store :=
  if fd.fileName ∈ st.held (st.client session) then st.db.update fd.fileName FsRow.withoutOwner
  else st.db

/-- The request announces content that does not change. -/
def Misreports (st : Leader Store) (session : SessionId) : Request → Prop
  | .fileOpen name mode => checkName name = true ∧
      (mode.has ModeFlag.createDirectory && mode.has ModeFlag.createFile) = false ∧
      if mode.creates then st.db.Admits name ∧ st.WrapsParent name
      else st.db.Has name ∧ getParentName name ≠ root ∧ st.Heard (getParentName name)
  | .setContents fd _ => st.db.number fd.fileName = some (wire fd.instanceNumber) ∧
      st.Heard fd.fileName ∧ st.db.generation fd.fileName = some lastGeneration
  | .fileDelete fd =>
      st.db.Removable fd.fileName (wire fd.instanceNumber) ∧ st.WrapsParent fd.fileName
  | .fileClose fd => fd.fileName ∈ st.ephemeral (st.client session) ∧
      (st.freed session fd).Removable fd.fileName (wire fd.instanceNumber) ∧
      st.WrapsParent fd.fileName
  | _ => False

instance (st : Leader δ) (f : Str) : Decidable (st.Heard f) :=
  inferInstanceAs (Decidable (st.file2contentChangeMap.get f ≠ []))

instance (st : Leader Store) (name : Str) : Decidable (st.WrapsParent name) :=
  inferInstanceAs (Decidable (getParentName name ≠ root ∧ st.Heard (getParentName name) ∧
    st.db.generation (getParentName name) = some lastGeneration))

instance (st : Leader Store) (session : SessionId) : ∀ request,
    Decidable (Misreports st session request)
  | .fileOpen name mode => inferInstanceAs (Decidable (checkName name = true ∧
      (mode.has ModeFlag.createDirectory && mode.has ModeFlag.createFile) = false ∧
      if mode.creates then st.db.Admits name ∧ st.WrapsParent name
      else st.db.Has name ∧ getParentName name ≠ root ∧ st.Heard (getParentName name)))
  | .setContents fd _ =>
    inferInstanceAs (Decidable (st.db.number fd.fileName = some (wire fd.instanceNumber) ∧
      st.Heard fd.fileName ∧ st.db.generation fd.fileName = some lastGeneration))
  | .fileDelete fd => inferInstanceAs (Decidable
      (st.db.Removable fd.fileName (wire fd.instanceNumber) ∧ st.WrapsParent fd.fileName))
  | .fileClose fd => inferInstanceAs (Decidable (fd.fileName ∈ st.ephemeral (st.client session) ∧
      (st.freed session fd).Removable fd.fileName (wire fd.instanceNumber) ∧
      st.WrapsParent fd.fileName))
  | .getContentsAndStat _ | .acquire _ | .tryAcquire _ | .release _ | .startSession _
  | .fileReopen _ _ => inferInstanceAs (Decidable False)

/-- The texts of a request stay inside their tokens. -/
def WordedInput (st : Leader Store) : Input → Prop
  | .rpc session _ request => Worded st session request
  | _ => True

instance (st : Leader Store) : ∀ input, Decidable (WordedInput st input)
  | .rpc session _ request => inferInstanceAs (Decidable (Worded st session request))
  | .disconnect _ => inferInstanceAs (Decidable True)
  | .initializeLeader => inferInstanceAs (Decidable True)

/-! ## What a segment tells -/

/-- Nobody is told that a file is modified. -/
def Unheard (l : List Action) : Prop := ∀ f, toldModified f l = []

section Segments

variable {f g : Str} {l l' : List Action}

theorem toldModified_append : toldModified f (l ++ l') = toldModified f l ++ toldModified f l' :=
  List.filterMap_append

@[simp] theorem toldModified_replyOf {session : SessionId} {xid : Xid} {body : Reply} :
    toldModified f (Leader.replyOf session xid body) = [] := by
  unfold Leader.replyOf
  split_ifs <;> rfl

theorem toldModified_events {sessions : List SessionId} :
    toldModified f (sessions.map (.event · .contentModified g)) =
      if f = g then sessions else [] := by
  unfold toldModified
  rw [List.filterMap_map]
  split_ifs with hf
  · subst hf
    have hsome : (Action.modified f ∘ fun s => Action.event s .contentModified f) = some := by
      funext s
      simp [Action.modified]
    rw [hsome, List.filterMap_some]
  · have hnone : (Action.modified f ∘ fun s => Action.event s .contentModified g) =
      fun _ => none := by
      funext s
      simp [Action.modified, Ne.symm hf]
    rw [hnone, List.filterMap_none]

@[simp] theorem toldModified_lockEvents (st : Leader δ) :
    toldModified f (st.lockEvents g) = [] := by
  unfold toldModified Leader.lockEvents
  rw [List.filterMap_map]
  exact List.filterMap_none _

theorem Unheard.append (h : Unheard l) (h' : Unheard l') : Unheard (l ++ l') := by
  intro f
  rw [toldModified_append, h f, h' f]
  rfl

theorem Unheard.replyOf (session : SessionId) (xid : Xid) (body : Reply) :
    Unheard (Leader.replyOf session xid body) := fun _ => toldModified_replyOf

/-- The files whose content events a request sends for the parent of a node. -/
def announcedParent (name : Str) : List Str :=
  if getParentName name = root then [] else [getParentName name]

theorem not_mem_announcedParent {name : Str} (h : NameOk name) : name ∉ announcedParent name := by
  unfold announcedParent
  split_ifs
  · exact List.not_mem_nil
  · exact fun hcon => getParentName_ne h (List.mem_singleton.mp hcon).symm

theorem toldModified_contentEvents (st : Leader δ) :
    toldModified f (st.contentEvents g) = if f = g then st.file2contentChangeMap.get f else [] := by
  unfold Leader.contentEvents
  rw [toldModified_events]
  split_ifs with hf
  · rw [hf]
  · rfl

theorem toldModified_parentEvents (st : Leader δ) :
    toldModified f (st.parentEvents g) =
      if f ∈ announcedParent g then st.file2contentChangeMap.get f else [] := by
  unfold Leader.parentEvents announcedParent
  split_ifs with hroot hf hf
  · cases hf
  · rfl
  · rw [toldModified_contentEvents, if_pos (List.mem_singleton.mp hf)]
  · rw [toldModified_contentEvents, if_neg fun hcon => hf (List.mem_singleton.mpr hcon)]

end Segments

/-! ## What a request announces -/

section Announces

variable {st st₁ st' : Leader Store} {A : List Str} {name : Str}

/-- The content subscribers of the files of `A` are told of them, and no other
    content changes. -/
structure Leader.Announces (st st' : Leader Store) (A : List Str) : Prop where
  told : Leader.Adds (fun l => ∀ f, toldModified f l =
    if f ∈ A then st.file2contentChangeMap.get f else []) st st'
  missed : ∀ f, Changes (st.db.generation f) (st'.db.generation f) → f ∈ A

/-- Such a request reports the changes if what it announces to somebody changes. -/
theorem Leader.Announces.reports_iff {call : Action} (hcall : ∀ f, call.modified f = none)
    (h : (st.logged [call]).Announces st' A) :
    ReportsContent st st' ↔
      ∀ f ∈ A, st.Heard f → Changes (st.db.generation f) (st'.db.generation f) := by
  obtain ⟨⟨l, htold, hlog⟩, hmissed⟩ := h
  have hadded : st'.log.drop st.log.length = call :: l := by
    rw [hlog, Leader.logged_log, List.append_assoc, List.drop_left]
    rfl
  have hsame : ∀ f, toldModified f (st'.log.drop st.log.length) =
      if f ∈ A then st.file2contentChangeMap.get f else [] := by
    intro f
    rw [hadded]
    exact (List.filterMap_cons_none (hcall f)).trans (htold f)
  constructor
  · intro hreports f hf hheard
    have hboth := (hsame f).symm.trans (hreports f)
    rw [if_pos hf] at hboth
    by_contra hnot
    rw [if_neg hnot] at hboth
    exact hheard hboth
  · intro hchanges f
    rw [hsame f]
    by_cases hf : f ∈ A
    · rw [if_pos hf]
      by_cases hheard : st.Heard f
      · rw [if_pos (hchanges f hf hheard)]
      · have hnobody : st.file2contentChangeMap.get f = [] := not_not.mp hheard
        rw [hnobody, ite_self]
    · have hnot : ¬ Changes (st.db.generation f) (st'.db.generation f) := fun hcon =>
        hf (hmissed f hcon)
      rw [if_neg hf, if_neg hnot]

/-- Nothing is announced and nothing changes. -/
theorem Leader.Announces.quiet {call : Action} (hcall : ∀ f, call.modified f = none)
    (h : (st.logged [call]).Announces st' []) : ReportsContent st st' :=
  (h.reports_iff hcall).mpr fun _ hf => absurd hf List.not_mem_nil

theorem Changes.irrefl : ∀ n, ¬ Changes n n
  | some n => lt_irrefl n
  | none => not_false

/-- A segment without content events, and no generation number moves. -/
theorem Leader.Announces.none (htold : Leader.Adds Unheard st st')
    (hsame : st'.db.generation = st.db.generation) : st.Announces st' [] where
  told := htold.imp fun l hl f => hl f
  missed f hchanges := by
    rw [hsame] at hchanges
    exact absurd hchanges (Changes.irrefl _)

/-- Such a segment before and after leaves what is announced. -/
theorem Leader.Announces.after (h : st₁.Announces st' A)
    (htold : Leader.Adds Unheard st st₁)
    (hsame : st₁.db.generation = st.db.generation)
    (hlists : st₁.file2contentChangeMap = st.file2contentChangeMap) : st.Announces st' A where
  told := htold.append h.told fun l l' hl hl' f => by
    rw [toldModified_append, hl, hl', hlists]
    rfl
  missed := by
    rw [← hsame]
    exact h.missed

theorem Leader.Announces.reply (h : st.Announces st' A) (session : SessionId) (xid : Xid)
    (body : Reply) : st.Announces (st'.logged (Leader.replyOf session xid body)) A where
  told := by
    obtain ⟨l, hl, hlog⟩ := h.told
    refine ⟨l ++ Leader.replyOf session xid body, fun f => ?_, ?_⟩
    · rw [toldModified_append, toldModified_replyOf, List.append_nil]
      exact hl f
    · rw [Leader.logged_log, hlog, List.append_assoc]
  missed := h.missed

end Announces

/-! ## The parent of a node -/

section Parent

variable {before mid after : Str → Option Int} {name : Str}

/-- The generation numbers are those of 32 bits. -/
def Counted (numbers : Str → Option Int) : Prop :=
  ∀ f n, numbers f = some n → -2 ^ 31 ≤ n ∧ n < 2 ^ 31

theorem Counted.update {numbers : Str → Option Int} (h : Counted numbers) {f : Str} {n : Option Int}
    (hn : ∀ m ∈ n, -2 ^ 31 ≤ m ∧ m < 2 ^ 31) : Counted (Function.update numbers f n) := by
  intro g m hm
  by_cases hg : g = f
  · subst hg
    rw [Function.update_self] at hm
    exact hn m hm
  · rw [Function.update_of_ne hg] at hm
    exact h g m hm

theorem StepsParent.counted (h : StepsParent before mid name after) (hmid : Counted mid) :
    Counted after := by
  cases h with
  | top _ => exact hmid
  | nested _ _ =>
    refine hmid.update fun m hm => ?_
    rw [← Option.some.inj hm]
    exact printfD_bounds _

/-- Only the parent moves on from `mid`. -/
theorem StepsParent.same (h : StepsParent before mid name after) {f : Str}
    (hf : f ∉ announcedParent name) : after f = mid f := by
  cases h with
  | top _ => rfl
  | nested hroot _ =>
    refine Function.update_of_ne (fun hcon => hf ?_) _ _
    unfold announcedParent
    rw [if_neg hroot, hcon]
    exact List.mem_cons_self

/-- The content of the parent changes, unless its number was the last. -/
theorem StepsParent.changes_iff (h : StepsParent before mid name after) (hcounted : Counted before)
    (heard : Str → Prop) :
    (∀ f ∈ announcedParent name, heard f → Changes (before f) (after f)) ↔
      ¬ (getParentName name ≠ root ∧ heard (getParentName name) ∧
        before (getParentName name) = some lastGeneration) := by
  unfold announcedParent
  cases h with
  | top hroot => simp [hroot]
  | @nested n hroot hbefore =>
    obtain ⟨hlow, hhigh⟩ := hcounted _ n hbefore
    have hnext : Changes (some n) (some (nextGeneration n)) ↔ n ≠ lastGeneration :=
      lt_nextGeneration_iff hlow hhigh
    rw [if_neg hroot]
    simp only [List.mem_singleton, forall_eq, hbefore, Function.update_self, hnext, ne_eq, hroot,
      not_false_eq_true, true_and, Option.some.injEq, not_and]

end Parent

/-! ## The handlers -/

section Deletions

variable {sq : Engine} {strHash : Str → UInt64} {stillNamed : FdRecord → Bool}
  {session : SessionId} {xid : Xid}
  {fd : FileHandler} {st st₁ st' : Leader Store}

/-- A reply alone. -/
theorem Leader.Adds.unheard {body : Reply} (h : st₁.log = st.log) :
    Leader.Adds Unheard st (st₁.logged (Leader.replyOf session xid body)) :=
  ⟨_, .replyOf session xid body, by rw [Leader.logged_log, h]⟩

theorem HandOffEnds.unheard {fileName : Str} (h : HandOffEnds fileName st (.ret () st')) :
    Leader.Adds Unheard st st' := by
  have hpop : ∀ (s : SessionId) (x : Xid),
      Unheard (.dequeue fileName s x :: Leader.replyOf s x (.bool true)) :=
    fun s x f => toldModified_replyOf
  cases h with
  | noQueue _ => exact ⟨[], fun _ => rfl, (List.append_nil _).symm⟩
  | @lastWaiter s x _ _ => exact ⟨_, hpop s x, by simp⟩
  | @moreWaiters s x rest _ _ _ => exact ⟨_, hpop s x, by simp⟩

theorem ReleaseEnds.unheard
    (h : ReleaseEnds (Service.paxos sq strHash stillNamed) session xid fd st (.ret () st')) :
    Leader.Adds Unheard st st' := by
  cases h with
  | threw _ _ => exact .unheard rfl
  | refused _ _ => exact .unheard rfl
  | @released db st₁ hc hdb hoff =>
    have hreply : Leader.Adds Unheard st (st.released session xid fd db) := .unheard rfl
    have hgranted : Leader.Adds Unheard st st₁ :=
      hreply.append hoff.unheard fun _ _ hl hl' => hl.append hl'
    have hevents : Leader.Adds Unheard st₁ (st₁.logged (st₁.lockEvents fd.fileName)) :=
      ⟨_, fun _ => toldModified_lockEvents _, rfl⟩
    exact hgranted.append hevents fun _ _ hl hl' => hl.append hl'

/-- The lock of a node that has another instance number is not reset. -/
theorem Store.not_removable {db : Store} {name : Str} {n : UInt64} (h : db.number name ≠ some n) :
    ¬ db.Removable name n := by
  rintro ⟨r, hr, hn, _⟩
  exact h (Option.map_eq_some_iff.mpr ⟨r, hr, hn⟩)

theorem ReleaseEnds.frees
    (h : ReleaseEnds (Service.paxos sq strHash stillNamed) session xid fd st (.ret () st'))
    (hready : st.db.Ready) (hname : NameOk fd.fileName) :
    st'.db.generation = st.db.generation ∧
      (st'.db.Removable fd.fileName (wire fd.instanceNumber) ↔
        (st.db.update fd.fileName FsRow.withoutOwner).Removable fd.fileName
          (wire fd.instanceNumber)) := by
  have hspec := generation_resetLockOwner sq strHash hready hname fd.instanceNumber
  cases h with
  | @threw db _ hdb =>
    have hthrew : GenerationFrees fd.fileName (wire fd.instanceNumber) st.db
      (.stop .exception db) := hdb ▸ hspec
    cases hthrew
  | @refused db _ hdb =>
    have hfrees : GenerationFrees fd.fileName (wire fd.instanceNumber) st.db (.ret false db) :=
      hdb ▸ hspec
    cases hfrees with
    | refused hnumber hsame =>
      subst hsame
      refine ⟨rfl, iff_of_false (Store.not_removable hnumber) (Store.not_removable ?_)⟩
      rw [Store.number_update FsRow.stable_withoutOwner]
      exact hnumber
  | @released db st₁ _ hdb hoff =>
    have hfrees : GenerationFrees fd.fileName (wire fd.instanceNumber) st.db (.ret true db) :=
      hdb ▸ hspec
    have hkept : (st₁.logged (st₁.lockEvents fd.fileName)).db = db := hoff.db
    cases hfrees with
    | freed hfreed =>
      rw [hkept, hfreed]
      exact ⟨Store.generation_update_same FsRow.stable_withoutOwner.name fun _ => rfl, Iff.rfl⟩

/-- How a request ends that deletes the node of a name under the condition `P`. -/
inductive Deletes (P : Prop) (name : Str) (st st' : Leader Store) : Prop
  | stays : ¬ P → st.Announces st' [] → st'.db.generation = st.db.generation → Deletes P name st st'
  | goes : P → st.Announces st' (name :: announcedParent name) →
      (∃ n, st.db.generation name = some n) →
      StepsParent st.db.generation (Function.update st.db.generation name none) name
        st'.db.generation → Deletes P name st st'

theorem Deletes.reply {P : Prop} {name : Str} (h : Deletes P name st st') (body : Reply) :
    Deletes P name st (st'.logged (Leader.replyOf session xid body)) := by
  cases h with
  | stays hno htold hsame => exact .stays hno (htold.reply session xid body) hsame
  | goes hyes htold hnode hsteps => exact .goes hyes (htold.reply session xid body) hnode hsteps

theorem Deletes.counted {P : Prop} {name : Str} (h : Deletes P name st st')
    (hcounted : Counted st.db.generation) : Counted st'.db.generation := by
  cases h with
  | stays _ _ hsame =>
    rw [hsame]
    exact hcounted
  | goes _ _ _ hsteps =>
    refine hsteps.counted (hcounted.update fun m hm => ?_)
    cases hm

/-- The deletion itself is reported; the change of the parent unless it wraps. -/
theorem Deletes.reports_iff {P : Prop} {name : Str} {call : Action}
    (hcall : ∀ f, call.modified f = none) (h : Deletes P name (st.logged [call]) st')
    (hcounted : Counted st.db.generation) (hname : NameOk name) :
    ReportsContent st st' ↔ ¬ (P ∧ st.WrapsParent name) := by
  cases h with
  | stays hno htold _ =>
    exact iff_of_true (htold.quiet hcall) fun hcon => hno hcon.1
  | goes hyes htold hnode hsteps =>
    obtain ⟨n, hn⟩ := hnode
    have hgone : Changes (st.db.generation name) (st'.db.generation name) := by
      have hbefore : st.db.generation name = some n := hn
      rw [hsteps.same (not_mem_announcedParent hname), Function.update_self, hbefore]
      trivial
    have hparent := hsteps.changes_iff hcounted st.Heard
    rw [htold.reports_iff hcall, List.forall_mem_cons, and_iff_right fun _ => hgone,
      and_iff_right hyes]
    exact hparent

theorem DeleteEnds.deletion {r : Except Unit Unit}
    (h : DeleteEnds (Service.paxos sq strHash stillNamed) session xid fd st (.ret r st'))
    (hready : st.db.Ready) (hname : NameOk fd.fileName) :
    Deletes (st.db.Removable fd.fileName (wire fd.instanceNumber)) fd.fileName st st' := by
  have hspec := generation_checkAndDelete sq strHash hready hname fd.instanceNumber
  cases h with
  | @threw db _ hdb =>
    have hthrew : GenerationDeletes fd.fileName (wire fd.instanceNumber) st.db
      (.stop .exception db) := hdb ▸ hspec
    cases hthrew
  | @refused db _ hdb =>
    have hdeletes : GenerationDeletes fd.fileName (wire fd.instanceNumber) st.db
      (.ret false db) := hdb ▸ hspec
    cases hdeletes with
    | refused hno hsame => exact .stays hno (.none (.unheard rfl) hsame) hsame
  | @deleted db _ hdb =>
    have hdeletes : GenerationDeletes fd.fileName (wire fd.instanceNumber) st.db
      (.ret true db) := hdb ▸ hspec
    cases hdeletes with
    | deleted hyes hsteps =>
      have hnode : ∃ n, st.db.generation fd.fileName = some n := by
        obtain ⟨r, hr, _⟩ := hyes
        exact ⟨_, Store.generation_of_row hr⟩
      have htold : ∀ f, toldModified f (Leader.replyOf session xid (.bool true) ++
          ((st.deleted (Service.paxos sq strHash stillNamed) session xid fd db).contentEvents
              fd.fileName ++
            (st.deleted (Service.paxos sq strHash stillNamed) session xid fd db).parentEvents
              fd.fileName)) =
          if f ∈ fd.fileName :: announcedParent fd.fileName then st.file2contentChangeMap.get f
          else [] := by
        intro f
        rw [toldModified_append, toldModified_append, toldModified_replyOf,
          toldModified_contentEvents, toldModified_parentEvents, List.nil_append]
        by_cases hf : f = fd.fileName
        · subst hf
          rw [if_pos rfl, if_neg (not_mem_announcedParent hname), if_pos List.mem_cons_self,
            List.append_nil]
          rfl
        · rw [if_neg hf, List.nil_append]
          simp only [List.mem_cons, hf, false_or]
          rfl
      refine .goes hyes ⟨⟨_, htold, ?_⟩, fun f hchanges => ?_⟩ hnode hsteps
      · simp
      · by_contra hf
        rw [List.mem_cons, not_or] at hf
        have hsame : db.generation f = st.db.generation f := by
          rw [hsteps.same hf.2, Function.update_of_ne hf.1]
        have hchanged : Changes (st.db.generation f) (db.generation f) := hchanges
        rw [hsame] at hchanged
        exact Changes.irrefl _ hchanged

/-- Reclaiming a lock is silent, and leaves the node as if its lock were free. -/
theorem ReclaimEnds.frees {clientId : Str}
    (h : ReclaimEnds (Service.paxos sq strHash stillNamed) session fd clientId st (.ret () st'))
    (hready : st.db.Ready) (hname : NameOk fd.fileName) :
    Leader.Adds Unheard st st' ∧ st'.db.generation = st.db.generation ∧
      (st'.db.Removable fd.fileName (wire fd.instanceNumber) ↔
        (if fd.fileName ∈ st.held clientId then st.db.update fd.fileName FsRow.withoutOwner
          else st.db).Removable fd.fileName (wire fd.instanceNumber)) := by
  cases h with
  | notHeld hnot =>
    rw [if_neg hnot]
    exact ⟨⟨[], fun _ => rfl, (List.append_nil _).symm⟩, rfl, Iff.rfl⟩
  | held hheld hr =>
    rw [if_pos hheld]
    exact ⟨hr.unheard, hr.frees hready hname⟩

theorem CloseEnds.deletion
    (h : CloseEnds (Service.paxos sq strHash stillNamed) session xid fd st (.ret () st'))
    (hready : st.db.Ready) (hname : NameOk fd.fileName) :
    Deletes (fd.fileName ∈ st.ephemeral (st.client session) ∧
      (st.freed session fd).Removable fd.fileName (wire fd.instanceNumber)) fd.fileName st st' := by
  cases h with
  | @deletes st₁ st₂ hc hreclaim heph hdelete =>
    have hentered : (st.entered session fd).db.Ready := hready
    obtain ⟨hsilent, hsame, hfree⟩ := hreclaim.frees hentered hname
    have htold : Leader.Adds Unheard st st₁ := hsilent
    obtain ⟨hready₁, _⟩ := hreclaim.has hentered hname
    have hlists : st₁.file2contentChangeMap = st.file2contentChangeMap :=
      hreclaim.listeners_eq .contentModified
    have hmarked : fd.fileName ∈ st.ephemeral (st.client session) := hreclaim.mem_ephemeral.mp heph
    cases hdelete.deletion hready₁ hname with
    | stays hno hannounces hstays =>
      refine .stays (fun hcon => hno (hfree.mpr hcon.2)) ?_ (hstays.trans hsame)
      exact (hannounces.after htold hsame hlists).reply session xid _
    | goes hyes hannounces hnode hsteps =>
      have hgeneration : (st₁.touchEphemeral (st.client session)).db.generation =
          st.db.generation := hsame
      rw [hgeneration] at hnode hsteps
      refine .goes ⟨hmarked, hfree.mp hyes⟩ ?_ hnode hsteps
      exact (hannounces.after htold hsame hlists).reply session xid _
  | @closes st₁ st₂ hc hreclaim heph hclear =>
    have hentered : (st.entered session fd).db.Ready := hready
    obtain ⟨htold, hsame, _⟩ := hreclaim.frees hentered hname
    have hdb : st₂.db = st₁.db := hclear.db
    have hlog : st₂.log = st₁.log := hclear.log
    have hunmarked : fd.fileName ∉ st.ephemeral (st.client session) :=
      fun hcon => heph (hreclaim.mem_ephemeral.mpr hcon)
    have hquiet : Leader.Adds Unheard st₁ ((st₂.unsubscribed session fd.fileName).logged
        (Leader.replyOf session xid (.bool true))) := .unheard hlog
    have hgeneration : st₂.db.generation = st.db.generation := by
      rw [hdb]
      exact hsame
    refine .stays (fun hcon => hunmarked hcon.1) (.none ?_ hgeneration) hgeneration
    exact htold.append hquiet fun _ _ hl hl' => hl.append hl'

/-- The disconnection of a session keeps the database in order and the numbers to 32 bits. -/
theorem CloseAllEnds.counted {l : List FdRecord} {o : Outcome Stop (Leader Store) Unit}
    (h : CloseAllEnds (Service.paxos sq strHash stillNamed) session l st o) (ho : o = .ret () st')
    (hready : st.db.Ready) (hnames : ∀ p ∈ l, NameOk p.value.fileName)
    (hcounted : Counted st.db.generation) : st'.db.Ready ∧ Counted st'.db.generation := by
  induction h with
  | done =>
    cases ho
    exact ⟨hready, hcounted⟩
  | stopped _ => cases ho
  | @next p rest st st₁ o hclose _ ih =>
    have hname := hnames p List.mem_cons_self
    exact ih ho (hclose.ready hready hname) (fun q hq => hnames q (List.mem_cons_of_mem p hq))
      ((hclose.deletion hready hname).counted hcounted)

end Deletions

/-! ## The opening of a node -/

section Opens

variable {E : Service δ} {st st' : Leader δ} {session : SessionId} {xid : Xid} {name : Str}
  {mode : Mode} {n : UInt64} {db : δ}

theorem wp_finishOpen (st : Leader δ) (db : δ) :
    Prog.wp (finishOpen E name mode n session xid)
      (fun _ st' => st' = (st.opened E session xid name mode n db).logged
        ((st.opened E session xid name mode n db).parentEvents name)) (fun _ _ => True)
      (((st.touchClient session).setDb db).markedEphemeral (st.client session) name
        (ephemeralMode mode)) := by
  simp only [finishOpen, addFd, sendParentEvent, sendContentChangeEvent, Prog.wp_bind, Prog.wp_gets,
    Prog.wp_modify, wp_reply, Prog.wp_ite, Prog.wp_pure]
  unfold Leader.parentEvents
  split_ifs
  · rw [Leader.logged_nil]
    rfl
  · rfl

/-- A `fileOpen` that the database grants opens the node. -/
theorem fileOpen_granted (hname : checkName name = true)
    (hvalid : (mode.has ModeFlag.createDirectory && mode.has ModeFlag.createFile) = false)
    (hcall : openCall E name mode st.db = .ret (some n) db)
    (h : fileOpen E name mode session xid st = .ret () st') :
    st' = (st.opened E session xid name mode n db).logged
      ((st.opened E session xid name mode n db).parentEvents name) := by
  have hgranted : Prog.wp (fileOpen E name mode session xid)
      (fun _ st' => st' = (st.opened E session xid name mode n db).logged
        ((st.opened E session xid name mode n db).parentEvents name)) (fun _ _ => True) st := by
    refine wp_client (fun _ _ => trivial) fun _ => ?_
    have hfinish : Prog.wp (finishOpen E name mode n session xid) _ _ _ := wp_finishOpen st db
    simp only [Prog.wp_bind, Prog.wp_ite, hname, hvalid, not_true_eq_false, Bool.false_eq_true,
      if_false]
    split_ifs with hcreates
    · have hopen : openCall E name mode = _ := if_pos hcreates
      have hmode : ephemeralMode mode = mode := if_pos hcreates
      rw [hmode] at hfinish
      refine wp_callDb (fun r db' hdb => ?_) (fun db' hdb => ?_) (fun _ _ => trivial)
      · rw [Leader.touchClient_db, ← hopen, hcall] at hdb
        cases hdb
        simpa only [Prog.wp_bind, Prog.wp_modify] using hfinish
      · rw [Leader.touchClient_db, ← hopen, hcall] at hdb
        cases hdb
    · have hopen : openCall E name mode = _ := if_neg hcreates
      have hmode : ephemeralMode mode = 0 := if_neg hcreates
      rw [hmode] at hfinish
      refine wp_callDb (fun r db' hdb => ?_) (fun db' hdb => ?_) (fun _ _ => trivial)
      · rw [Leader.touchClient_db, ← hopen, hcall] at hdb
        cases hdb
        exact hfinish
      · rw [Leader.touchClient_db, ← hopen, hcall] at hdb
        cases hdb
  have hread := Prog.wp_of_ret hgranted h
  exact hread

/-- A `setContents` that the database grants announces the file. -/
theorem setContents_granted {fd : FileHandler} {content : Str}
    (hcall : E.db.checkAndUpdate fd.fileName fd.instanceNumber content st.db = .ret true db)
    (h : setContents E fd content session xid st = .ret () st') :
    st' = ((st.foundFd session fd).setDb db).logged
      (Leader.replyOf session xid (.bool true) ++ st.contentEvents fd.fileName) := by
  have hgranted : Prog.wp (setContents E fd content session xid)
      (fun _ st' => st' = ((st.foundFd session fd).setDb db).logged
        (Leader.replyOf session xid (.bool true) ++ st.contentEvents fd.fileName))
      (fun _ _ => True) st := by
    unfold setContents
    simp only [Prog.wp_bind, wp_findFd, Leader.findFd_value]
    refine wp_callDb (fun done db' hdb => ?_) (fun db' hdb => ?_) (fun _ _ => trivial)
    · rw [Leader.foundFd_db, hcall] at hdb
      cases hdb
      rw [← Leader.logged_logged]
      rfl
    · rw [Leader.foundFd_db, hcall] at hdb
      cases hdb
  have hread := Prog.wp_of_ret hgranted h
  exact hread

end Opens

section Opened

theorem Leader.contentChange_subscribed {st : Leader δ} {session : SessionId} {name f : Str}
    {mode : Mode} (hne : f ≠ name) :
    (st.subscribed session name mode).file2contentChangeMap.get f =
      st.file2contentChangeMap.get f := by
  rw [Leader.subscribed_file2contentChangeMap]
  split_ifs
  · rw [UMap.get_alter, if_neg hne]
  · rfl

variable {sq : Engine} {strHash : Str → UInt64} {stillNamed : FdRecord → Bool} {session : SessionId}
  {xid : Xid} {name : Str}
  {mode : Mode} {n : UInt64} {st st' : Leader Store} {db : Store}

/-- What the database does for a `fileOpen` that it grants. -/
inductive Grants (name : Str) (mode : Mode) (st db : Store) : Prop
  | made : mode.creates = true → st.Admits name →
      StepsParent st.generation (Function.update st.generation name (some 0)) name db.generation →
      Grants name mode st db
  | found : mode.creates = false → st.Has name → db.generation = st.generation →
      Grants name mode st db

/-- How the database answers a `fileOpen`. -/
inductive OpenAnswers (name : Str) (mode : Mode) (st : Store) :
    Outcome Fault Store (Option UInt64) → Prop
  | refused {db : Store} : (if mode.creates then ¬ st.Admits name else ¬ st.Has name) →
      db.generation = st.generation → OpenAnswers name mode st (.ret none db)
  | granted {n : UInt64} {db : Store} : Grants name mode st db →
      OpenAnswers name mode st (.ret (some n) db)

theorem openCall_answers (hready : st.db.Ready) (hname : NameOk name) :
    OpenAnswers name mode st.db
      (openCall (Service.paxos sq strHash stillNamed) name mode st.db) := by
  by_cases hcreates : mode.creates = true
  · have hcall : openCall (Service.paxos sq strHash stillNamed) name mode =
        (Service.paxos sq strHash stillNamed).db.checkAndCreate name
          (mode.has ModeFlag.createDirectory) :=
      if_pos hcreates
    have hspec := generation_checkAndCreate sq strHash hready hname
      (mode.has ModeFlag.createDirectory)
    rw [hcall]
    show OpenAnswers name mode st.db ((leaderDb sq strHash).checkAndCreate name _ st.db)
    generalize (leaderDb sq strHash).checkAndCreate name _ st.db = o at hspec
    cases hspec with
    | refused hno hsame =>
      refine .refused ?_ hsame
      rw [if_pos hcreates]
      exact hno
    | made hadmits hsteps => exact .granted (.made hcreates hadmits hsteps)
  · have hcall : openCall (Service.paxos sq strHash stillNamed) name mode =
        (Service.paxos sq strHash stillNamed).db.checkAndOpen name := if_neg hcreates
    rw [hcall]
    show OpenAnswers name mode st.db ((leaderDb sq strHash).checkAndOpen name st.db)
    rw [generation_checkAndOpen sq strHash hname]
    have hopens : mode.creates = false := Bool.eq_false_iff.mpr hcreates
    cases hnumber : st.db.number name with
    | none =>
      refine .refused ?_ rfl
      rw [if_neg hcreates]
      exact not_not.mpr (Option.map_eq_none_iff.mp hnumber)
    | some n =>
      refine .granted (.found hopens (fun hcon => ?_) rfl)
      rw [Store.number, hcon] at hnumber
      cases hnumber

/-- The node of a `fileOpen` that is granted is opened, and its parent announced. -/
theorem Grants.announces (h : Grants name mode st.db db) (hname : NameOk name) :
    st.Announces
      ((st.opened (Service.paxos sq strHash stillNamed) session xid name mode n db).logged
        ((st.opened (Service.paxos sq strHash stillNamed) session xid name mode n db).parentEvents
          name))
      (announcedParent name) := by
  have hlists : ∀ f ∈ announcedParent name,
      (st.opened (Service.paxos sq strHash stillNamed) session xid name mode n
        db).file2contentChangeMap.get f = st.file2contentChangeMap.get f := by
    intro f hf
    have hne : f ≠ name := by
      rintro rfl
      exact not_mem_announcedParent hname hf
    exact Leader.contentChange_subscribed hne
  have htold : ∀ f, toldModified f (Leader.replyOf session xid (.fd (signFd
      (Service.paxos sq strHash stillNamed) name mode n st.masterSequenceNumber)) ++
        (st.opened (Service.paxos sq strHash stillNamed) session xid name mode n db).parentEvents
          name) =
      if f ∈ announcedParent name then st.file2contentChangeMap.get f else [] := by
    intro f
    rw [toldModified_append, toldModified_replyOf, toldModified_parentEvents, List.nil_append]
    split_ifs with hf
    · exact hlists f hf
    · rfl
  refine ⟨⟨_, htold, ?_⟩, fun f hchanges => ?_⟩
  · rw [Leader.logged_log, Leader.logged_log, List.append_assoc]
    rfl
  · have hchanged : Changes (st.db.generation f) (db.generation f) := hchanges
    cases h with
    | made _ hadmits hsteps =>
      by_contra hf
      rw [hsteps.same hf] at hchanged
      by_cases hself : f = name
      · have hnone : st.db.generation f = none := by
          rw [hself, Store.generation, hadmits.1]
          rfl
        rw [hnone] at hchanged
        exact hchanged
      · rw [Function.update_of_ne hself] at hchanged
        exact Changes.irrefl _ hchanged
    | found _ _ hsame =>
      rw [hsame] at hchanged
      exact absurd hchanged (Changes.irrefl _)

theorem Grants.counted (h : Grants name mode st.db db) (hcounted : Counted st.db.generation) :
    Counted db.generation := by
  cases h with
  | made _ _ hsteps =>
    refine hsteps.counted (hcounted.update fun m hm => ?_)
    rw [← Option.some.inj hm]
    decide
  | found _ _ hsame =>
    rw [hsame]
    exact hcounted

/-- An opened node is reported as one that is made, and that the next number of its
    parent is not greater makes the difference. -/
theorem Grants.reports_iff {call : Action} (hcall : ∀ f, call.modified f = none)
    (h : Grants name mode st.db db) (hdb : st'.db = db)
    (hannounces : (st.logged [call]).Announces st' (announcedParent name))
    (hcounted : Counted st.db.generation) :
    ReportsContent st st' ↔
      ¬ if mode.creates then st.db.Admits name ∧ st.WrapsParent name
        else st.db.Has name ∧ getParentName name ≠ root ∧ st.Heard (getParentName name) := by
  rw [hannounces.reports_iff hcall, hdb]
  cases h with
  | made hcreates hadmits hsteps =>
    rw [if_pos hcreates, and_iff_right hadmits]
    exact hsteps.changes_iff hcounted st.Heard
  | found hopens hhas hsame =>
    rw [if_neg (Bool.eq_false_iff.mp hopens), and_iff_right hhas, hsame]
    unfold announcedParent
    split_ifs with hroot
    · simp [hroot]
    · simp only [List.mem_singleton, forall_eq, Changes.irrefl, ne_eq, hroot, not_false_eq_true,
        true_and, imp_false]

end Opened

/-! ## Every step -/

section Steps

variable {sq : Engine} {strHash : Str → UInt64} {stillNamed : FdRecord → Bool}
  {session : SessionId} {xid : Xid}
  {fd : FileHandler} {st st' : Leader Store}

/-- The invariant. -/
structure ContentOk (st : Leader Store) : Prop where
  ready : st.db.Ready
  named : st.Named
  counted : Counted st.db.generation

/-- A request that announces nothing and changes nothing. -/
theorem ContentOk.quiet (hok : ContentOk st) {call : Action} (hcall : ∀ f, call.modified f = none)
    (htold : Leader.Adds Unheard (st.logged [call]) st')
    (hsame : st'.db.generation = st.db.generation) :
    Counted st'.db.generation ∧ ReportsContent st st' := by
  refine ⟨?_, (Leader.Announces.none htold hsame).quiet hcall⟩
  rw [hsame]
  exact hok.counted

theorem step_fileOpen {name : Str} {mode : Mode} (hok : ContentOk st)
    (h : Leader.step (Service.paxos sq strHash stillNamed)
      (.rpc session xid (.fileOpen name mode)) st =
      some st') :
    st'.db.Ready ∧ Counted st'.db.generation ∧
      (ReportsContent st st' ↔ ¬ Misreports st session (.fileOpen name mode)) := by
  have hcall : ∀ f, (Action.call session xid (.fileOpen name mode)).modified f = none :=
    fun _ => rfl
  by_cases hboth : (mode.has ModeFlag.createDirectory && mode.has ModeFlag.createFile) = true
  · rw [step_both hboth h]
    obtain ⟨hcounted, hreports⟩ := hok.quiet hcall (.unheard rfl) rfl
    refine ⟨hok.ready, hcounted, iff_of_true hreports fun hcon => ?_⟩
    rw [hcon.2.1] at hboth
    cases hboth
  · have hvalid := Bool.eq_false_iff.mpr hboth
    have hends := step_ends _ h
    by_cases hname : checkName name = true
    · have hanswers : OpenAnswers name mode st.db
          (openCall (Service.paxos sq strHash stillNamed) name mode st.db) :=
        openCall_answers hok.ready (checkName_iff.mp hname)
      have hnode : NodeOpens name mode.creates st.db
          (openCall (Service.paxos sq strHash stillNamed) name mode st.db) :=
        nodeOpens_openCall hok.ready (checkName_iff.mp hname) mode
      generalize hrun : openCall (Service.paxos sq strHash stillNamed) name mode
          st.db = o at hanswers hnode
      have hready : ∀ {r db}, o = .ret r db → db.Ready := by
        rintro r db rfl
        cases hnode with
        | same hready _ _ => exact hready
        | made _ hready _ _ => exact hready
      cases hanswers with
      | @refused db hno hsame =>
        have hquiet : st'.db = db ∧
            Leader.Adds Unheard (st.logged [.call session xid (.fileOpen name mode)]) st' := by
          cases hends with
          | fileOpen ho =>
            cases ho with
            | badArg _ hbad => exact absurd hbad (not_or.mpr ⟨by simp [hname], hboth⟩)
            | failed _ _ hcalled =>
              cases hcalled with
              | returned hcon =>
                cases hrun.symm.trans hcon
                exact ⟨rfl, .unheard rfl⟩
              | threw hcon => cases hrun.symm.trans hcon
            | opened _ _ hcon => cases hrun.symm.trans hcon
        obtain ⟨hdb, htold⟩ := hquiet
        subst hdb
        obtain ⟨hcounted, hreports⟩ := hok.quiet hcall htold hsame
        refine ⟨hready rfl, hcounted, iff_of_true hreports ?_⟩
        rintro ⟨_, _, hcon⟩
        split_ifs at hcon hno
        · exact hno hcon.1
        · exact hno hcon.1
      | @granted n db hgrants =>
        have hgranted : openCall (Service.paxos sq strHash stillNamed) name mode
            (st.logged [.call session xid (.fileOpen name mode)]).db = .ret (some n) db := hrun
        rw [fileOpen_granted hname hvalid hgranted (dispatch_of_step h)]
        refine ⟨hready rfl, hgrants.counted hok.counted, ?_⟩
        have hgrants' : Grants name mode
            (st.logged [.call session xid (.fileOpen name mode)]).db db := hgrants
        refine (hgrants.reports_iff hcall rfl
          (hgrants'.announces (checkName_iff.mp hname)) hok.counted).trans (not_congr ?_)
        rw [Misreports, and_iff_right hname, and_iff_right hvalid]
    · have hquiet : st'.db = st.db ∧
          Leader.Adds Unheard (st.logged [.call session xid (.fileOpen name mode)]) st' := by
        cases hends with
        | fileOpen ho =>
          cases ho with
          | badArg _ _ => exact ⟨rfl, .unheard rfl⟩
          | failed _ hcon _ => exact absurd hcon hname
          | opened _ hcon _ => exact absurd hcon hname
      obtain ⟨hdb, htold⟩ := hquiet
      obtain ⟨hcounted, hreports⟩ := hok.quiet hcall htold (congrArg Store.generation hdb)
      refine ⟨hdb ▸ hok.ready, hcounted, iff_of_true hreports fun hcon => hname hcon.1⟩

theorem AcquireEnds.unheard {busy : Leader Store → Leader Store}
    (h : AcquireEnds (Service.paxos sq strHash stillNamed) session xid fd busy st (.ret () st'))
    (hbusy : ∀ st₁, Leader.Adds Unheard st₁ (busy st₁)) : Leader.Adds Unheard st st' := by
  cases h with
  | threw _ _ => exact .unheard rfl
  | @taken db _ _ _ =>
    have hreply : Leader.Adds Unheard st (st.taken session xid fd db) := .unheard rfl
    have hevents : Leader.Adds Unheard (st.taken session xid fd db)
        ((st.taken session xid fd db).logged
          ((st.taken session xid fd db).lockEvents fd.fileName)) :=
      ⟨_, fun _ => toldModified_lockEvents _, rfl⟩
    exact hreply.append hevents fun _ _ hl hl' => hl.append hl'
  | busy _ _ => exact hbusy _

theorem AcquireEnds.generation {busy : Leader Store → Leader Store}
    (h : AcquireEnds (Service.paxos sq strHash stillNamed) session xid fd busy st (.ret () st'))
    (hready : st.db.Ready) (hname : NameOk fd.fileName) (hquote : '"' ∉ st.client session)
    (hbusy : ∀ st₁, (busy st₁).db = st₁.db) : st'.db.generation = st.db.generation := by
  have hspec := generation_testAndSetLockOwner sq strHash hready hname fd.instanceNumber hquote
  cases h with
  | @threw db _ hdb =>
    have hthrew : GenerationKeeps (α := Bool) st.db (.stop .exception db) := hdb ▸ hspec
    cases hthrew
  | @taken db _ hdb _ =>
    have hkeeps : GenerationKeeps st.db (.ret true db) := hdb ▸ hspec
    cases hkeeps with
    | kept hsame => exact hsame
  | @busy db _ hdb =>
    have hkeeps : GenerationKeeps st.db (.ret false db) := hdb ▸ hspec
    rw [hbusy]
    cases hkeeps with
    | kept hsame => exact hsame

theorem ReadEnds.generation
    (h : ReadEnds (Service.paxos sq strHash stillNamed) session xid fd st (.ret () st'))
    (hname : NameOk fd.fileName) : st'.db.generation = st.db.generation := by
  have hspec : GenerationKeeps st.db _ :=
    generation_checkAndRead sq strHash hname fd.instanceNumber
  cases h with
  | @answered r db body hcalled _ _ =>
    cases hcalled with
    | threw hdb =>
      have hthrew : GenerationKeeps (α := Option (Str × MetaData)) st.db (.stop .exception db) :=
        hdb ▸ hspec
      cases hthrew
    | @returned r _ hdb =>
      have hkeeps : GenerationKeeps st.db (.ret r db) := hdb ▸ hspec
      cases hkeeps with
      | kept hsame => exact hsame

/-- A content that is set is announced, and has changed unless its number was the last. -/
theorem step_setContents {content : Str} (hok : ContentOk st)
    (h : Leader.step (Service.paxos sq strHash stillNamed)
      (.rpc session xid (.setContents fd content)) st =
      some st') (hname : NameOk fd.fileName) (hquote : '"' ∉ content) :
    Counted st'.db.generation ∧
      (ReportsContent st st' ↔ ¬ Misreports st session (.setContents fd content)) := by
  have hcall : ∀ f, (Action.call session xid (.setContents fd content)).modified f = none :=
    fun _ => rfl
  have hwrites : GenerationWrites fd.fileName (wire fd.instanceNumber) st.db
      ((Service.paxos sq strHash stillNamed).db.checkAndUpdate fd.fileName fd.instanceNumber
        content st.db) :=
    generation_checkAndUpdate sq strHash hok.ready hname fd.instanceNumber hquote
  generalize hrun : (Service.paxos sq strHash stillNamed).db.checkAndUpdate fd.fileName
    fd.instanceNumber content st.db = o at hwrites
  cases hwrites with
  | @refused db hno hsame =>
    have hquiet : st'.db = db ∧
        Leader.Adds Unheard (st.logged [.call session xid (.setContents fd content)]) st' := by
      cases step_ends _ h with
      | setContents ho =>
        cases ho with
        | failed hcalled =>
          cases hcalled with
          | returned hcon =>
            cases hrun.symm.trans hcon
            exact ⟨rfl, .unheard rfl⟩
          | threw hcon => cases hrun.symm.trans hcon
        | written hcon => cases hrun.symm.trans hcon
    obtain ⟨rfl, htold⟩ := hquiet
    obtain ⟨hcounted, hreports⟩ := hok.quiet hcall htold hsame
    exact ⟨hcounted, iff_of_true hreports fun hcon => hno hcon.1⟩
  | @written m db hyes hm hgeneration =>
    have hgranted : (Service.paxos sq strHash stillNamed).db.checkAndUpdate fd.fileName
        fd.instanceNumber content
        (st.logged [.call session xid (.setContents fd content)]).db = .ret true db := hrun
    have hwritten := setContents_granted hgranted (dispatch_of_step h)
    obtain ⟨hlow, hhigh⟩ := hok.counted _ m hm
    have hnext : Changes (some m) (some (nextGeneration m)) ↔ m ≠ lastGeneration :=
      lt_nextGeneration_iff hlow hhigh
    have htold : ∀ f, toldModified f (Leader.replyOf session xid (.bool true) ++
        (st.logged [.call session xid (.setContents fd content)]).contentEvents fd.fileName) =
          if f ∈ [fd.fileName] then st.file2contentChangeMap.get f else [] := by
      intro f
      rw [toldModified_append, toldModified_replyOf, toldModified_contentEvents, List.nil_append]
      simp only [List.mem_singleton]
      rfl
    have hmissed : ∀ f, Changes (st.db.generation f) (db.generation f) → f ∈ [fd.fileName] := by
      intro f hchanges
      by_contra hf
      rw [hgeneration, Function.update_of_ne fun hcon =>
        hf (List.mem_singleton.mpr hcon)] at hchanges
      exact Changes.irrefl _ hchanges
    have hdb : st'.db = db := by
      rw [hwritten]
      rfl
    have hannounces : (st.logged [.call session xid (.setContents fd content)]).Announces st'
        [fd.fileName] := by
      rw [hwritten]
      exact ⟨⟨_, htold, rfl⟩, hmissed⟩
    rw [hannounces.reports_iff hcall, Misreports, and_iff_right hyes, hdb, hgeneration]
    refine ⟨hok.counted.update fun k hk => ?_, ?_⟩
    · rw [← Option.some.inj hk]
      exact printfD_bounds _
    · simp only [List.mem_singleton, forall_eq, hm, Function.update_self, hnext, ne_eq,
        Option.some.injEq, not_and]

/-- Every request reports the changes of content, unless its condition fails. -/
theorem step_content {request : Request} (hok : ContentOk st) (hw : Worded st session request)
    (h : Leader.step (Service.paxos sq strHash stillNamed) (.rpc session xid request) st =
      some st') :
    ContentOk st' ∧ (ReportsContent st st' ↔ ¬ Misreports st session request) := by
  have hends := step_ends _ h
  have hnamed : st'.Named := by
    refine hends.named hok.named fun s x r hinput fd hfd => ?_
    cases hinput
    exact hw.1 fd hfd
  have hname : ∀ {fd : FileHandler}, request.handle = some fd → NameOk fd.fileName :=
    fun hfd => checkName_iff.mp (hw.1 _ hfd)
  have hcall : ∀ f, (Action.call session xid request).modified f = none := fun _ => rfl
  -- a request that announces nothing
  have hsilent : st'.db.Ready → st'.db.generation = st.db.generation →
      Leader.Adds Unheard (st.logged [.call session xid request]) st' →
      ContentOk st' ∧ (ReportsContent st st' ↔ ¬ False) := by
    intro hready hsame htold
    obtain ⟨hcounted, hreports⟩ := hok.quiet hcall htold hsame
    exact ⟨⟨hready, hnamed, hcounted⟩, iff_of_true hreports not_false⟩
  -- a request that may delete a node
  have hdeletes : ∀ {P : Prop} {name : Str}, st'.db.Ready → NameOk name →
      Deletes P name (st.logged [.call session xid request]) st' →
      ContentOk st' ∧ (ReportsContent st st' ↔ ¬ (P ∧ st.WrapsParent name)) := by
    intro P name hready hname hdeletion
    exact ⟨⟨hready, hnamed, hdeletion.counted hok.counted⟩,
      hdeletion.reports_iff hcall hok.counted hname⟩
  cases hends with
  | fileOpen ho =>
    obtain ⟨hready, hcounted, hreports⟩ := step_fileOpen hok h
    exact ⟨⟨hready, hnamed, hcounted⟩, hreports⟩
  | fileClose ho =>
    have hfd := hname rfl
    rw [Misreports, ← and_assoc]
    exact hdeletes (ho.ready hok.ready hfd) hfd (ho.deletion hok.ready hfd)
  | fileDelete ho =>
    have hfd := hname rfl
    exact hdeletes (ho.nodes hok.ready hfd).1 hfd (ho.deletion hok.ready hfd)
  | getContentsAndStat ho =>
    have hfd := hname rfl
    refine hsilent (Leader.Sheds.ready (ho.sheds (c := []) hok.ready hfd)) (ho.generation hfd) ?_
    cases ho with
    | answered _ _ _ => exact .unheard rfl
  | setContents ho =>
    have hfd := hname rfl
    obtain ⟨hcounted, hreports⟩ := step_setContents hok h hfd hw.2.1
    exact ⟨⟨(ho.sheds (c := []) hok.ready hfd hw.2.1).ready, hnamed, hcounted⟩, hreports⟩
  | acquire ho =>
    have hfd := hname rfl
    have hquote := hw.2.2 (Option.some_ne_none _)
    refine hsilent (ho.sheds (c := []) hok.ready hfd hquote fun _ => ⟨rfl, rfl⟩).ready
      (ho.generation hok.ready hfd hquote fun _ => rfl) (ho.unheard fun st₁ => ?_)
    exact ⟨_, fun _ => rfl, rfl⟩
  | tryAcquire ho =>
    have hfd := hname rfl
    have hquote := hw.2.2 (Option.some_ne_none _)
    exact hsilent (ho.sheds (c := []) hok.ready hfd hquote fun _ => ⟨rfl, rfl⟩).ready
      (ho.generation hok.ready hfd hquote fun _ => rfl) (ho.unheard fun _ => .unheard rfl)
  | release ho =>
    have hfd := hname rfl
    exact hsilent (ho.has hok.ready hfd).1 (ho.frees hok.ready hfd).1 ho.unheard
  | startSession ho =>
    cases ho with
    | refused _ => exact hsilent hok.ready rfl (.unheard rfl)
    | started _ => exact hsilent hok.ready rfl (.unheard rfl)
  | fileReopen => exact hsilent hok.ready rfl (.unheard rfl)

theorem step_contentOk {input : Input} (hok : ContentOk st) (hw : WordedInput st input)
    (h : Leader.step (Service.paxos sq strHash stillNamed) input st = some st') :
    ContentOk st' := by
  have hends := step_ends _ h
  cases input with
  | rpc s x request => exact (step_content hok hw h).1
  | disconnect s =>
    have hnamed := hends.named hok.named fun _ _ _ hinput => by cases hinput
    cases hends with
    | disconnect ho =>
      cases ho with
      | left hall =>
        have hkept := hall.counted rfl hok.ready (hok.named s) hok.counted
        exact ⟨hkept.1, hnamed, hkept.2⟩
  | initializeLeader =>
    have hnamed := hends.named hok.named fun _ _ _ hinput => by cases hinput
    have hdb : st'.db = st.db := by
      cases hends with
      | initializeLeader ho =>
        cases ho with
        | @initialized files db hstates =>
          have hread : (Service.paxos sq strHash stillNamed).db.getStates st.db =
              .ret (st.db.owners ++ st.db.owners) st.db := leaderDb_getStates sq strHash _
          cases hread.symm.trans hstates
          exact Leader.db_recovered _ _
    exact ⟨hdb ▸ hok.ready, hnamed, hdb ▸ hok.counted⟩

end Steps

/-! ## Every run -/

/-- In every run of requests whose texts stay inside their tokens, and of
    disconnections and changes of leader, a request reports the changes of content
    unless it opens a node below a directory with subscribers without making it, or
    the last generation number is used up. -/
theorem reportsContent_iff (sq : Engine) (strHash : Str → UInt64)
    (stillNamed : FdRecord → Bool) (masterSequenceNumber : UInt64)
    (st : Leader Store)
    (h : ((Service.paxos sq strHash stillNamed).leader .empty masterSequenceNumber).Reach
      WordedInput st)
    (session : SessionId) (xid : Xid) (request : Request) (hw : Worded st session request)
    (st' : Leader Store)
    (hstep : Leader.step (Service.paxos sq strHash stillNamed) (.rpc session xid request) st =
      some st') :
    ReportsContent st st' ↔ ¬ Misreports st session request := by
  have hok : ContentOk st := by
    refine h.invariant ?_ ?_
    · rintro st rfl
      refine ⟨Store.ready_empty, fun s p hp => ?_, fun f n hn => ?_⟩
      · cases hp
      · cases hn
    · intro st st' input _ hok hinput hst
      exact step_contentOk hok hinput hst
  exact (step_content hok hw hstep).2

/-- A session makes a directory, follows its content, and makes a file in it. -/
def madeInDirectory : List Input :=
  [.rpc 1 1 (.startSession ['1']),
    .rpc 1 2 (.fileOpen ['/', 'd'] (ModeFlag.createDirectory ||| ModeFlag.evContentModified)),
    .rpc 1 3 (.fileOpen ['/', 'd', '/', 'f'] ModeFlag.createFile)]

/-- A second file in it is reported. -/
theorem reportsContent_create : ∃ st st',
    ((Service.paxos .refusing (fun _ => 0) inlineNamed).leader .empty 0).exec WordedInput
      madeInDirectory
      (.fresh .empty 0) = some st ∧
    Leader.step (Service.paxos .refusing (fun _ => 0) inlineNamed)
      (.rpc 1 4 (.fileOpen ['/', 'd', '/', 'g'] ModeFlag.createFile)) st = some st' ∧
    ReportsContent st st' := by
  have hrun : ∃ st st',
      ((Service.paxos .refusing (fun _ => 0) inlineNamed).leader .empty 0).exec WordedInput
        madeInDirectory
        (.fresh .empty 0) = some st ∧
      Leader.step (Service.paxos .refusing (fun _ => 0) inlineNamed)
        (.rpc 1 4 (.fileOpen ['/', 'd', '/', 'g'] ModeFlag.createFile)) st = some st' ∧
      Worded st 1 (.fileOpen ['/', 'd', '/', 'g'] ModeFlag.createFile) ∧
      ¬ Misreports st 1 (.fileOpen ['/', 'd', '/', 'g'] ModeFlag.createFile) := by
    refine ⟨_, _, rfl, rfl, ?_, ?_⟩
    · decide
    · decide
  obtain ⟨st, st', hst, hstep, hw, hnot⟩ := hrun
  exact ⟨st, st', hst, hstep,
    (reportsContent_iff _ _ _ 0 st (Lts.Reach.exec (.init rfl) hst) 1 4 _ hw
    st' hstep).mpr hnot⟩

/-- Opening the file again is announced as a change of the directory. -/
theorem not_reportsContent :
    ¬ ∀ st, ((Service.paxos .refusing (fun _ => 0) inlineNamed).leader .empty 0).Reach
      (fun _ _ => True) st →
      ∀ session xid request st',
        Leader.step (Service.paxos .refusing (fun _ => 0) inlineNamed)
          (.rpc session xid request) st = some st' →
          ReportsContent st st' := by
  intro hall
  have hrun :
      (((Service.paxos .refusing (fun _ => 0) inlineNamed).leader .empty 0).exec (fun _ _ => True)
      madeInDirectory (.fresh .empty 0)).bind (fun st =>
        (Leader.step (Service.paxos .refusing (fun _ => 0) inlineNamed)
          (.rpc 1 4 (.fileOpen ['/', 'd', '/', 'f'] 0)) st).map fun st' =>
            (toldModified ['/', 'd'] (st'.log.drop st.log.length), st.db.generation ['/', 'd'],
              st'.db.generation ['/', 'd'])) = some ([1], some 1, some 1) := by decide +kernel
  obtain ⟨st, hst, hopen⟩ := Option.bind_eq_some_iff.mp hrun
  obtain ⟨st', hst', hread⟩ := Option.map_eq_some_iff.mp hopen
  simp only [Prod.mk.injEq] at hread
  obtain ⟨htold, hbefore, hafter⟩ := hread
  have hreports := hall st (Lts.Reach.exec (.init rfl) hst) 1 4 _ st' hst' ['/', 'd']
  rw [htold, hbefore, hafter, if_neg (Changes.irrefl _)] at hreports
  cases hreports

end SimpleChubby
