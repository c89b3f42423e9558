import Mathlib.Logic.Function.Basic
import SimpleChubby.Leader.Ephemerals

/-!
# The files the sessions have open

The handles, the event lists and the ephemeral sets of the leader, as what each
of its sessions has open: files with the modes they were opened with. The leader
reflects such lists if it has a handle for each entry, a subscription for each
event that an entry asks for, and a mark for each entry that asks for one. Opens
and re-opens add an entry; a close takes away the entries of one session on the
file, or those of all sessions if it deletes the file, and under a condition it
does no more and no less.
-/

namespace SimpleChubby

variable {δ : Type}

/-- Whether an open file is the file `f`, opened for the event. -/
def asks (e : ChubbyEvent) (f : Str) (p : FileHandler × Mode) : Bool :=
  p.1.fileName == f && p.2.has e.flag

/-- The open files other than `f`: what is left after a close of `f`. -/
def withoutFile (f : Str) (opened : List (FileHandler × Mode)) : List (FileHandler × Mode) :=
  opened.filter fun p => p.1.fileName ≠ f

/-- The leader knows of the open files of its sessions and of nothing else. -/
structure Leader.Reflects (st : Leader δ) (opened : SessionId → List (FileHandler × Mode)) :
    Prop where
  handles : ∀ s, ((st.fds s).map FdRecord.value).Perm ((opened s).map Prod.fst)
  lists : ∀ e f s, ((st.listeners e).get f).count s = (opened s).countP (asks e f)
  marks : ∀ c f, f ∈ st.ephemeral c ↔ ∃ s, st.client s = c ∧ ∃ p ∈ opened s,
    p.1.fileName = f ∧ p.2.has ModeFlag.ephemeral = true

/-! ## The condition -/

section Condition

variable (E : Service δ) (st : Leader δ) (session : SessionId)

/-- An open of an ephemeral file creates it, or its client has it marked already. -/
def MarksOpen (fileName : Str) (mode : Mode) : Prop :=
  opensNode E st.db fileName mode = true → mode.has ModeFlag.ephemeral = true →
    mode.creates = true ∨ fileName ∈ st.ephemeral (st.client session)

/-- A close takes away every handle of its session on the file: the close of an
    ephemeral file deletes it, and with it the handles of no other session and the
    mark, the freed handle still having its name; any other close is that of the
    only one. -/
def ClosesAll (fd : FileHandler) : Prop :=
  if fd.fileName ∈ st.ephemeral (st.client session) then
    TidyClose E session fd st ∧ (∀ q ∈ st.file2fdMap.get fd.fileName, q.session = session) ∧
      E.stillNamed (st.findFd session fd) = true
  else ∀ p ∈ st.fds session, p.value.fileName = fd.fileName →
    p.address = (st.findFd session fd).address

/-- A delete changes no handle: if the node is deleted there is none on it, and if
    not, the handle is one of the session's. -/
def DeletesNone (fd : FileHandler) : Prop :=
  match E.db.checkAndDelete fd.fileName fd.instanceNumber st.db with
  | .ret true _ => st.file2fdMap.get fd.fileName = []
  | _ => ∃ p ∈ st.fds session, p.value = fd

end Condition

/-! ## Updates -/

section Updates

variable {f g : Str} {e : ChubbyEvent} {l : List (FileHandler × Mode)}

theorem asks_iff {p : FileHandler × Mode} :
    asks e f p = true ↔ p.1.fileName = f ∧ p.2.has e.flag = true := by
  unfold asks
  rw [Bool.and_eq_true, beq_iff_eq]

theorem mem_withoutFile {p : FileHandler × Mode} :
    p ∈ withoutFile f l ↔ p ∈ l ∧ p.1.fileName ≠ f := by
  unfold withoutFile
  rw [List.mem_filter, decide_eq_true_iff]

theorem withoutFile_eq_self (h : ∀ p ∈ l, p.1.fileName ≠ f) : withoutFile f l = l := by
  refine List.filter_eq_self.mpr fun p hp => ?_
  exact decide_eq_true (h p hp)

theorem map_withoutFile :
    (withoutFile f l).map Prod.fst = (l.map Prod.fst).filter fun fd => fd.fileName ≠ f := by
  unfold withoutFile
  rw [List.filter_map]
  rfl

/-- Nothing is left that asks for an event of the file, and all else is. -/
theorem countP_asks_withoutFile :
    (withoutFile f l).countP (asks e g) = if g = f then 0 else l.countP (asks e g) := by
  unfold withoutFile
  rw [List.countP_filter]
  split_ifs with hg
  · subst hg
    refine List.countP_eq_zero.mpr fun p _ => ?_
    rw [Bool.and_eq_true, asks_iff, decide_eq_true_iff]
    rintro ⟨⟨hname, _⟩, hne⟩
    exact hne hname
  · refine List.countP_congr fun p _ => ?_
    rw [Bool.and_eq_true, asks_iff, decide_eq_true_iff]
    constructor
    · exact And.left
    · rintro ⟨rfl, hflag⟩
      exact ⟨⟨rfl, hflag⟩, hg⟩

end Updates

namespace Leader.Reflects

variable {st st' : Leader δ} {opened opened' : SessionId → List (FileHandler × Mode)}
  {session : SessionId} {fd : FileHandler} {mode : Mode}

theorem congr (h : st.Reflects opened) (hfds : ∀ s, st'.fds s = st.fds s)
    (hlists : ∀ e, st'.listeners e = st.listeners e)
    (hmarks : ∀ c, st'.ephemeral c = st.ephemeral c) (hclients : ∀ s, st'.client s = st.client s) :
    st'.Reflects opened := by
  refine ⟨fun s => ?_, fun e f s => ?_, fun c f => ?_⟩
  · rw [hfds]
    exact h.handles s
  · rw [hlists]
    exact h.lists e f s
  · rw [hmarks]
    simp only [hclients]
    exact h.marks c f

theorem logged (h : st.Reflects opened) (l : List Action) : (st.logged l).Reflects opened :=
  h.congr (fun _ => rfl) (fun e => by cases e <;> rfl) (fun _ => rfl) fun _ => rfl

/-- The order in which the files were opened does not matter. -/
theorem perm (h : st.Reflects opened) (hperm : ∀ s, (opened s).Perm (opened' s)) :
    st.Reflects opened' := by
  refine ⟨fun s => ?_, fun e f s => ?_, fun c f => ?_⟩
  · exact (h.handles s).trans ((hperm s).map _)
  · rw [h.lists]
    exact (hperm s).countP_eq _
  · rw [h.marks]
    simp only [(hperm _).mem_iff]

/-- A leader that knows of nothing reflects that nothing is open. -/
theorem empty (hfds : ∀ s, st.fds s = []) (hlists : ∀ e f, (st.listeners e).get f = [])
    (hmarks : ∀ c, st.ephemeral c = ∅) : st.Reflects fun _ => [] := by
  refine ⟨fun s => ?_, fun e f s => ?_, fun c f => ?_⟩
  · rw [hfds]
    exact .refl _
  · rw [hlists]
    rfl
  · rw [hmarks]
    simp

/-- A session has a handle if and only if it has a file open. -/
theorem fds_ne_nil (h : st.Reflects opened) {s : SessionId} : st.fds s ≠ [] ↔ opened s ≠ [] := by
  have hlength := (h.handles s).length_eq
  rw [List.length_map, List.length_map] at hlength
  rw [← List.length_pos_iff, ← List.length_pos_iff, hlength]

/-- A session in an event list has a file open. -/
theorem ne_nil_of_listed (h : st.Reflects opened) {e : ChubbyEvent} {f : Str} {s : SessionId}
    (hs : s ∈ (st.listeners e).get f) : opened s ≠ [] := by
  rw [← List.count_pos_iff, h.lists, List.countP_pos_iff] at hs
  obtain ⟨p, hp, _⟩ := hs
  exact List.ne_nil_of_mem hp

/-- A file is open for a session if and only if there is a handle on it. -/
theorem exists_mem (h : st.Reflects opened) {s : SessionId} {f : Str} :
    (∃ p ∈ st.fds s, p.value.fileName = f) ↔ ∃ p ∈ opened s, p.1.fileName = f := by
  have hmem : ∀ fd, (∃ p ∈ st.fds s, p.value = fd) ↔ ∃ p ∈ opened s, p.1 = fd := by
    intro fd
    have hiff := (h.handles s).mem_iff (a := fd)
    rwa [List.mem_map, List.mem_map] at hiff
  constructor
  · rintro ⟨p, hp, hname⟩
    obtain ⟨q, hq, heq⟩ := (hmem p.value).mp ⟨p, hp, rfl⟩
    exact ⟨q, hq, heq ▸ hname⟩
  · rintro ⟨p, hp, hname⟩
    obtain ⟨q, hq, heq⟩ := (hmem p.1).mpr ⟨p, hp, rfl⟩
    exact ⟨q, hq, heq ▸ hname⟩

/-- The session opens one more file. -/
theorem opens (h : st.Reflects opened) {p : FdRecord} (hvalue : p.value = fd)
    (hfds : ∀ s, st'.fds s = if s = session then st.fds s ++ [p] else st.fds s)
    (hlists : ∀ e f, (st'.listeners e).get f =
      if f = fd.fileName ∧ mode.has e.flag = true then (st.listeners e).get f ++ [session]
      else (st.listeners e).get f)
    (hmarks : ∀ c f, f ∈ st'.ephemeral c ↔ f ∈ st.ephemeral c ∨
      mode.has ModeFlag.ephemeral = true ∧ c = st.client session ∧ f = fd.fileName)
    (hclients : ∀ s, st'.client s = st.client s) :
    st'.Reflects (Function.update opened session (opened session ++ [(fd, mode)])) := by
  refine ⟨fun s => ?_, fun e f s => ?_, fun c f => ?_⟩
  · rw [hfds]
    by_cases hs : s = session
    · subst hs
      rw [if_pos rfl, Function.update_self, List.map_append, List.map_append]
      refine (h.handles s).append ?_
      rw [← hvalue]
      exact .refl _
    · rw [if_neg hs, Function.update_of_ne hs]
      exact h.handles s
  · have hone :
      (if f = fd.fileName ∧ mode.has e.flag = true then (st.listeners e).get f ++ [session]
        else (st.listeners e).get f).count s = ((st.listeners e).get f).count s +
          if s = session then [(fd, mode)].countP (asks e f) else 0 := by
      rw [List.countP_singleton]
      by_cases hasks : f = fd.fileName ∧ mode.has e.flag = true
      · rw [if_pos hasks, if_pos (asks_iff.mpr ⟨hasks.1.symm, hasks.2⟩), List.count_append,
          List.count_singleton]
        simp only [beq_iff_eq, eq_comm (a := session)]
      · have hnot : ¬ asks e f (fd, mode) = true := by
          rw [asks_iff]
          exact fun hcon => hasks ⟨hcon.1.symm, hcon.2⟩
        rw [if_neg hasks, if_neg hnot, ite_self, Nat.add_zero]
    rw [hlists, hone, h.lists]
    by_cases hs : s = session
    · subst hs
      rw [if_pos rfl, Function.update_self, List.countP_append]
    · rw [if_neg hs, Function.update_of_ne hs, Nat.add_zero]
  · simp only [hclients]
    rw [hmarks, h.marks]
    constructor
    · rintro (⟨s, hs, p, hp, hrest⟩ | ⟨hflag, rfl, rfl⟩)
      · refine ⟨s, hs, p, ?_, hrest⟩
        by_cases heq : s = session
        · subst heq
          rw [Function.update_self]
          exact List.mem_append_left _ hp
        · rwa [Function.update_of_ne heq]
      · refine ⟨session, rfl, (fd, mode), ?_, rfl, hflag⟩
        rw [Function.update_self]
        exact List.mem_append_right _ List.mem_cons_self
    · rintro ⟨s, hs, p, hp, hname, hflag⟩
      by_cases heq : s = session
      · subst heq
        rw [Function.update_self, List.mem_append, List.mem_singleton] at hp
        rcases hp with hp | rfl
        · exact Or.inl ⟨s, hs, p, hp, hname, hflag⟩
        · exact Or.inr ⟨hflag, hs.symm, hname.symm⟩
      · rw [Function.update_of_ne heq] at hp
        exact Or.inl ⟨s, hs, p, hp, hname, hflag⟩

/-- The session closes a file that is not ephemeral for its client. -/
theorem closes (h : st.Reflects opened) {f : Str} (hunmarked : f ∉ st.ephemeral (st.client session))
    (hfds : ∀ s, st'.fds s =
      if s = session then (st.fds s).filter (fun p => p.value.fileName ≠ f) else st.fds s)
    (hlists : ∀ e g, (st'.listeners e).get g =
      if g = f then ((st.listeners e).get g).filter (· != session) else (st.listeners e).get g)
    (hmarks : ∀ c, st'.ephemeral c = st.ephemeral c) (hclients : ∀ s, st'.client s = st.client s) :
    st'.Reflects (Function.update opened session (withoutFile f (opened session))) := by
  refine ⟨fun s => ?_, fun e g s => ?_, fun c g => ?_⟩
  · rw [hfds]
    by_cases hs : s = session
    · subst hs
      rw [if_pos rfl, Function.update_self, map_withoutFile]
      have hfiltered := (h.handles s).filter fun fd => decide (fd.fileName ≠ f)
      rw [List.filter_map] at hfiltered
      exact hfiltered
    · rw [if_neg hs, Function.update_of_ne hs]
      exact h.handles s
  · rw [hlists]
    by_cases hs : s = session
    · subst hs
      rw [Function.update_self, countP_asks_withoutFile, ← h.lists]
      split_ifs
      · refine List.count_eq_zero.mpr fun hmem => ?_
        simp at hmem
      · rfl
    · rw [Function.update_of_ne hs, ← h.lists]
      split_ifs
      · exact List.count_filter (by simpa using hs)
      · rfl
  · rw [hmarks]
    simp only [hclients]
    rw [h.marks]
    refine exists_congr fun s => and_congr_right fun hs => ?_
    by_cases heq : s = session
    · subst heq
      rw [Function.update_self]
      refine exists_congr fun p => ?_
      rw [mem_withoutFile]
      constructor
      · rintro ⟨hp, hname, hflag⟩
        refine ⟨⟨hp, ?_⟩, hname, hflag⟩
        rintro rfl
        exact hunmarked ((h.marks _ _).mpr ⟨s, rfl, p, hp, rfl, hflag⟩)
      · rintro ⟨⟨hp, _⟩, hrest⟩
        exact ⟨hp, hrest⟩
    · rw [Function.update_of_ne heq]

/-- A file is deleted that is ephemeral for no client but this one. -/
theorem deletes (h : st.Reflects opened) {f c₀ : Str} (hmarked : ∀ c, f ∈ st.ephemeral c → c = c₀)
    (hfds : ∀ s, st'.fds s = (st.fds s).filter (fun p => p.value.fileName ≠ f))
    (hlists : ∀ e g, (st'.listeners e).get g = if g = f then [] else (st.listeners e).get g)
    (hmarks : ∀ c g, g ∈ st'.ephemeral c ↔ g ∈ st.ephemeral c ∧ ¬ (c = c₀ ∧ g = f))
    (hclients : ∀ s, st'.client s = st.client s) :
    st'.Reflects fun s => withoutFile f (opened s) := by
  refine ⟨fun s => ?_, fun e g s => ?_, fun c g => ?_⟩
  · rw [hfds, map_withoutFile]
    have hfiltered := (h.handles s).filter fun fd => decide (fd.fileName ≠ f)
    rw [List.filter_map] at hfiltered
    exact hfiltered
  · rw [hlists, countP_asks_withoutFile, ← h.lists]
    split_ifs
    · rfl
    · rfl
  · simp only [hclients, mem_withoutFile]
    rw [hmarks]
    constructor
    · rintro ⟨hmem, hnot⟩
      obtain ⟨s, hs, p, hp, rfl, hflag⟩ := (h.marks c g).mp hmem
      refine ⟨s, hs, p, ⟨hp, ?_⟩, rfl, hflag⟩
      rintro rfl
      exact hnot ⟨hmarked c hmem, rfl⟩
    · rintro ⟨s, hs, p, ⟨hp, hne⟩, rfl, hflag⟩
      exact ⟨(h.marks _ _).mpr ⟨s, hs, p, hp, rfl, hflag⟩, fun hcon => hne hcon.2⟩

end Leader.Reflects

/-! ## The handles after each update -/

section Fds

variable {st : Leader δ} {session s : SessionId} {fd : FileHandler}

theorem Leader.fds_foundFd_of_ne (hs : s ≠ session) :
    (st.foundFd session fd).fds s = st.fds s := by
  unfold Leader.fds
  rw [Leader.foundFd_session2fdMap]
  split_ifs
  · rw [UMap.get_touch]
  · rw [UMap.get_alter, if_neg hs, UMap.get_touch]

/-- The handle that a look-up adds is the one it returns. -/
theorem Leader.old_of_foundFd {p : FdRecord} (hp : p ∈ (st.foundFd session fd).fds session) :
    p ∈ st.fds session ∨ p = st.findFd session fd := by
  rw [Leader.foundFd_fds] at hp
  by_cases hcopies : 0 < st.copies session fd
  · rw [if_pos hcopies] at hp
    exact Or.inl hp
  · rw [if_neg hcopies, List.mem_append, List.mem_singleton] at hp
    refine hp.imp_right fun hnew => ?_
    have hnone : (st.fds session).find? (sameFd fd) = none := by
      refine List.find?_eq_none.mpr fun q hq hsame => hcopies ?_
      exact Leader.copies_pos.mpr ⟨q, hq, sameFd_iff.mp hsame⟩
    unfold Leader.findFd
    rw [hnone, hnew]
    rfl

/-- A look-up adds a handle on the file it looks for, if it adds one. -/
theorem Leader.filter_foundFd :
    ((st.foundFd session fd).fds s).filter (fun p => p.value.fileName ≠ fd.fileName) =
      (st.fds s).filter fun p => p.value.fileName ≠ fd.fileName := by
  by_cases hs : s = session
  · subst hs
    rw [Leader.foundFd_fds]
    split_ifs
    · rfl
    · rw [List.filter_append]
      simp
  · rw [Leader.fds_foundFd_of_ne hs]

end Fds

/-! ## The handlers -/

section Handlers

variable {E : Service δ} {st st' : Leader δ} {opened : SessionId → List (FileHandler × Mode)}
  {session : SessionId} {xid : Xid} {fd : FileHandler} {fileName : Str} {mode : Mode}

theorem reopened_reflects (h : st.Reflects opened) :
    (st.reopened session xid fd mode).Reflects
      (Function.update opened session (opened session ++ [(fd, mode)])) := by
  refine h.opens (p := ⟨st.nextAddress, fd⟩) rfl (fun s => ?_) (fun e f => ?_) (fun c f => ?_)
    fun s => ?_
  · exact Leader.fds_openFd
  · have hlists : (((st.openFd session fd).subscribed session fd.fileName mode).listeners e).get f =
        if f = fd.fileName ∧ mode.has e.flag = true then
          ((st.openFd session fd).listeners e).get f ++ [session]
        else ((st.openFd session fd).listeners e).get f := Leader.get_listeners_subscribed
    cases e with
    | lockChanged => exact hlists
    | contentModified => exact hlists
  · exact Leader.mem_markedEphemeral
  · exact UMap.get_touch _ _ _

/-- An open that is granted, and whose marks are right. -/
theorem opened_reflects (h : st.Reflects opened) {n : UInt64} {db : δ} {l : List Action}
    (hmode : mode.has ModeFlag.ephemeral = true →
      mode.creates = true ∨ fileName ∈ st.ephemeral (st.client session)) :
    ((st.opened E session xid fileName mode n db).logged l).Reflects
      (Function.update opened session
        (opened session ++ [(signFd E fileName mode n st.masterSequenceNumber, mode)])) := by
  refine h.opens (p := ⟨st.nextAddress, signFd E fileName mode n st.masterSequenceNumber⟩) rfl
    (fun s => ?_) (fun e f => ?_) (fun c f => ?_) fun s => ?_
  · have hfds : ((((st.touchClient session).setDb db).markedEphemeral (st.client session) fileName
        (ephemeralMode mode)).openFd session
          (signFd E fileName mode n st.masterSequenceNumber)).fds s = _ := Leader.fds_openFd
    exact hfds
  · have hlists : ((st.subscribed session fileName mode).listeners e).get f =
        if f = fileName ∧ mode.has e.flag = true then (st.listeners e).get f ++ [session]
        else (st.listeners e).get f := Leader.get_listeners_subscribed
    cases e with
    | lockChanged => exact hlists
    | contentModified => exact hlists
  · have hmarks : f ∈ (((st.touchClient session).setDb db).markedEphemeral (st.client session)
        fileName (ephemeralMode mode)).ephemeral c ↔ _ := Leader.mem_markedEphemeral
    refine hmarks.trans (or_congr_right' fun hnot => and_congr_left fun heq => ?_)
    obtain ⟨rfl, rfl⟩ := heq
    unfold ephemeralMode
    split_ifs with hcreates
    · exact Iff.rfl
    · refine iff_of_false (by decide) fun hflag => ?_
      rcases hmode hflag with hcon | hcon
      · exact hcreates hcon
      · exact hnot hcon
  · exact UMap.get_touch _ _ _

/-- The node is deleted, and with it what the leader knows of it, the mark of the
    client if the freed handle still has its name; `before` is the state before the
    call, of which the look-ups of the call are left out. -/
theorem deleted_reflects {before : Leader δ} (h : before.Reflects opened) (hi : st.Indexed)
    (hfds : ∀ s, (st.fds s).filter (fun p => p.value.fileName ≠ fd.fileName) =
      (before.fds s).filter fun p => p.value.fileName ≠ fd.fileName)
    (hlists : ∀ e, st.listeners e = before.listeners e)
    (hmarks : ∀ c, st.ephemeral c = before.ephemeral c)
    (hclients : ∀ s, st.client s = before.client s)
    (honly : ∀ c, fd.fileName ∈ before.ephemeral c → c = before.client session)
    (hnamed : fd.fileName ∈ before.ephemeral (before.client session) →
      E.stillNamed (st.findFd session fd) = true)
    {db : δ} {l : List Action} :
    (((st.deleted E session xid fd db).logged l).dropEvents fd.fileName).Reflects
      fun s => withoutFile fd.fileName (opened s) := by
  have hindexed : (st.entered session fd).Indexed := hi.foundFd session fd
  refine h.deletes honly (fun s => ?_) (fun e g => ?_) (fun c g => ?_) fun s => ?_
  · have hfound : ((st.foundFd session fd).fds s).filter
        (fun p => p.value.fileName ≠ fd.fileName) = _ := Leader.filter_foundFd
    rw [← hfds, ← hfound]
    exact Leader.fds_dropRecords hindexed fd.fileName
  · rw [Leader.get_listeners_dropEvents, ← hlists]
    cases e <;> rfl
  · rw [Leader.mem_ephemeral_deleted rfl, hmarks, hclients]
    refine and_congr_right fun hmem => not_congr ⟨fun hdrop => ?_, fun hdrop => ?_⟩
    · exact ⟨hdrop.1, hdrop.2.2⟩
    · obtain ⟨rfl, rfl⟩ := hdrop
      exact ⟨rfl, hnamed hmem, rfl⟩
  · rw [← hclients]
    exact UMap.get_touch _ _ _

/-- The sessions that have a handle on a file, as `file2fd_map` has them. -/
theorem Leader.Indexed.mem_file (hi : st.Indexed) {s : SessionId} {p : FdRecord}
    (hp : p ∈ st.fds s) : ⟨s, p⟩ ∈ st.file2fdMap.get p.value.fileName :=
  (hi.inverse s p).mp hp

theorem DeleteEnds.reflects {r : Except Unit Unit}
    (hends : DeleteEnds E session xid fd st (.ret r st')) (h : st.Reflects opened) (hi : st.Indexed)
    (hok : DeletesNone E st session fd) : st'.Reflects opened := by
  unfold DeletesNone at hok
  have hfound : (∃ p ∈ st.fds session, p.value = fd) → ∀ {db : δ} {l : List Action},
      (((st.entered session fd).setDb db).logged l).Reflects opened := by
    intro hmem db l
    refine h.congr (fun s => ?_) (fun e => ?_) (fun _ => rfl) fun s => UMap.get_touch _ _ _
    · exact Leader.foundFd_fds_of_mem hmem s
    · cases e <;> rfl
  cases hends with
  | threw _ hdb =>
    rw [hdb] at hok
    exact hfound hok
  | refused _ hdb =>
    rw [hdb] at hok
    exact hfound hok
  | deleted _ hdb =>
    rw [hdb] at hok
    -- nobody has the file open, so it is in no map
    have hnone : ∀ s, ∀ p ∈ opened s, p.1.fileName ≠ fd.fileName := by
      intro s p hp hname
      obtain ⟨q, hq, hqname⟩ := h.exists_mem.mpr ⟨p, hp, hname⟩
      have hfile := hi.mem_file hq
      rw [hqname, show st.file2fdMap.get fd.fileName = [] from hok] at hfile
      cases hfile
    have honly : ∀ c, fd.fileName ∈ st.ephemeral c → c = st.client session := by
      intro c hc
      obtain ⟨s, _, p, hp, hname, _⟩ := (h.marks c fd.fileName).mp hc
      exact absurd hname (hnone s p hp)
    have hsame : (fun s => withoutFile fd.fileName (opened s)) = opened := by
      funext s
      exact withoutFile_eq_self (hnone s)
    rw [← hsame]
    refine deleted_reflects h hi (fun _ => rfl) (fun _ => rfl) (fun _ => rfl) (fun _ => rfl) honly
      fun hmem => ?_
    obtain ⟨s, _, p, hp, hname, _⟩ := (h.marks _ fd.fileName).mp hmem
    exact absurd hname (hnone s p hp)

theorem CloseEnds.reflects (hends : CloseEnds E session xid fd st (.ret () st'))
    (h : st.Reflects opened) (hi : st.Indexed) (hok : ClosesAll E st session fd) :
    st'.Reflects (Function.update opened session (withoutFile fd.fileName (opened session))) := by
  have hindexed : (st.entered session fd).Indexed := hi.foundFd session fd
  have hclients : ∀ s, st'.client s = st.client s := by
    intro s
    unfold Leader.client
    rw [hends.sessions]
  unfold ClosesAll at hok
  cases hends with
  | @deletes st₁ st₂ hc hreclaim hmem hdelete =>
    have hmarks : ∀ c, (st₁.touchEphemeral (st.client session)).ephemeral c = st.ephemeral c :=
      fun c => hreclaim.ephemeral_touched
    have hmarked : fd.fileName ∈ st.ephemeral (st.client session) := hreclaim.mem_ephemeral.mp hmem
    rw [if_pos hmarked, hreclaim.tidy, TidyEnd, if_pos hmarked] at hok
    obtain ⟨⟨db', hdb'⟩, halone, hnamed⟩ := hok
    have hother : ∀ s, s ≠ session → ∀ p ∈ opened s, p.1.fileName ≠ fd.fileName := by
      intro s hs p hp hname
      obtain ⟨q, hq, hqname⟩ := h.exists_mem.mpr ⟨p, hp, hname⟩
      have hfile := hi.mem_file hq
      rw [hqname] at hfile
      exact hs (halone _ hfile)
    have honly : ∀ c, fd.fileName ∈ st.ephemeral c → c = st.client session := by
      intro c hc
      obtain ⟨s, rfl, p, hp, hname, _⟩ := (h.marks c fd.fileName).mp hc
      by_cases hs : s = session
      · rw [hs]
      · exact absurd hname (hother s hs p hp)
    have hbase : ∀ s, (st₁.touchEphemeral (st.client session)).client s = st.client s :=
      hreclaim.client
    have hi₁ : (st₁.touchEphemeral (st.client session)).Indexed := hreclaim.indexed hindexed
    cases hdelete with
    | threw _ hdb =>
      cases hdb'.symm.trans hdb
    | refused _ hdb =>
      cases hdb'.symm.trans hdb
    | @deleted db _ hdb =>
      have hfds : ∀ s, ((st₁.touchEphemeral (st.client session)).fds s).filter
          (fun p => p.value.fileName ≠ fd.fileName) =
            (st.fds s).filter fun p => p.value.fileName ≠ fd.fileName := by
        intro s
        rw [show (st₁.touchEphemeral (st.client session)).fds s = _ from hreclaim.fds s]
        exact Leader.filter_foundFd
      have hlists : ∀ e, (st₁.touchEphemeral (st.client session)).listeners e =
          st.listeners e := by
        intro e
        have hsame := hreclaim.listeners_eq e
        cases e <;> exact hsame
      have hsame : (fun s => withoutFile fd.fileName (opened s)) =
          Function.update opened session (withoutFile fd.fileName (opened session)) := by
        funext s
        by_cases hs : s = session
        · rw [hs, Function.update_self]
        · rw [Function.update_of_ne hs, withoutFile_eq_self (hother s hs)]
      have hagain : (st₁.touchEphemeral (st.client session)).findFd session fd =
          st.findFd session fd := Leader.findFd_again (hreclaim.fds session)
      rw [← hsame]
      refine (deleted_reflects h hi₁ hfds hlists hmarks hbase honly fun _ => ?_).logged _
      rw [hagain]
      exact hnamed
  | @closes st₁ st₂ hc hreclaim hmem hclear =>
    have hmarks : ∀ c, st₂.ephemeral c = st.ephemeral c :=
      fun c => hreclaim.ephemeral_closed hclear
    have hunmarked : fd.fileName ∉ st.ephemeral (st.client session) :=
      fun hcon => hmem (hreclaim.mem_ephemeral.mpr hcon)
    rw [if_neg hunmarked] at hok
    refine h.closes hunmarked (fun s => ?_) (fun e g => ?_) hmarks hclients
    · show st₂.fds s = _
      rw [hclear.fds_eq, Leader.fds_removeFd,
        show (st₁.touchEphemeral (st.client session)).fds s = _ from hreclaim.fds s]
      by_cases hs : s = session
      · subst hs
        rw [if_pos rfl, if_pos rfl, ← Leader.filter_foundFd]
        refine List.filter_congr fun p hp => Bool.eq_iff_iff.mpr ?_
        rw [bne_iff_ne, decide_eq_true_iff]
        refine not_congr ⟨fun haddress => ?_, fun hname => ?_⟩
        · obtain ⟨_, rfl⟩ := hindexed.owned s s _ _ hp (st.findFd_mem s fd) haddress
          exact congrArg FileHandler.fileName (Leader.findFd_value _ _ _)
        · rcases Leader.old_of_foundFd hp with hp | rfl
          · exact hok p hp hname
          · rfl
      · rw [if_neg hs, if_neg hs, Leader.fds_foundFd_of_ne hs]
    · have hlists := hreclaim.get_listeners_closed hclear e g
      cases e <;> exact hlists

end Handlers

/-! ## The steps of the leader -/

/-- The first reply to a call in a part of the log. -/
def replyTo (session : SessionId) (xid : Xid) (l : List Action) : Option Reply :=
  l.findSome? fun
    | .reply s x r => if s = session ∧ x = xid then some r else none
    | _ => none

/-- What the leader answers to a call in the step from `st` to `st'`. -/
def Leader.answer (st st' : Leader δ) (session : SessionId) (xid : Xid) : Option Reply :=
  replyTo session xid (st'.log.drop st.log.length)

section Steps

variable {E : Service δ} {st st' : Leader δ} {opened : SessionId → List (FileHandler × Mode)}
  {session : SessionId} {xid : Xid} {fd : FileHandler} {fileName : Str} {mode : Mode}

theorem replyTo_replyOf (hxid : xid ≠ internalXid) (r : Reply) (l : List Action) :
    replyTo session xid (Leader.replyOf session xid r ++ l) = some r := by
  unfold replyTo Leader.replyOf
  rw [if_neg hxid, List.singleton_append, List.findSome?_cons]
  simp

/-- Chatter holds no reply to an internal call. -/
theorem Chatter.replyTo_internal {l : List Action} (h : Chatter l) :
    replyTo session internalXid l = none := by
  refine List.findSome?_eq_none_iff.mpr fun a ha => ?_
  cases a with
  | reply s x body =>
    have hx : x ≠ internalXid := by
      rintro rfl
      exact (h.mem ha).2 s body rfl
    exact if_neg fun hcon => hx hcon.2
  | _ => rfl

theorem Leader.answer_eq {l : List Action} (hlog : st'.log = st.log ++ l) :
    st.answer st' session xid = replyTo session xid l := by
  unfold Leader.answer
  rw [hlog, List.drop_left]

/-- A reply that follows the call at once is its answer. -/
theorem Leader.answer_call {request : Request} {r : Reply} {l : List Action}
    (hxid : xid ≠ internalXid)
    (hlog : st'.log =
      (st.log ++ [.call session xid request]) ++ (Leader.replyOf session xid r ++ l)) :
    st.answer st' session xid = some r := by
  rw [List.append_assoc] at hlog
  rw [Leader.answer_eq hlog, ← replyTo_replyOf hxid r l]
  rfl

/-- Every call is answered, unless it waits for a lock. -/
theorem step_answers {request : Request} (hxid : xid ≠ internalXid)
    (hwait : ∀ fd, request ≠ .acquire fd)
    (h : Leader.step E (.rpc session xid request) st = some st') :
    ∃ r, st.answer st' session xid = some r := by
  obtain ⟨l, hl, hlog⟩ := (step_ends E h).adds
  rw [Leader.answer_eq hlog]
  refine Option.isSome_iff_exists.mp (List.findSome?_isSome_iff.mpr ?_)
  cases hl with
  | call hserves =>
    rcases hserves with ⟨before, body, after, _, _, rfl⟩ | ⟨fd, hcon, _⟩
    · refine ⟨.reply session xid body, ?_, by simp⟩
      unfold Leader.replyOf
      rw [if_neg hxid]
      simp
    · exact absurd hcon (hwait fd)

theorem fileOpen_reflects (hxid : xid ≠ internalXid) (h : st.Reflects opened)
    (hok : MarksOpen E st session fileName mode)
    (hstep : Leader.step E (.rpc session xid (.fileOpen fileName mode)) st = some st') :
    (∃ fd, st.answer st' session xid = some (.fd fd) ∧
      st'.Reflects (Function.update opened session (opened session ++ [(fd, mode)]))) ∨
    ∃ code, st.answer st' session xid = some (.error code) ∧ st'.Reflects opened := by
  have hcalled := h.logged [.call session xid (.fileOpen fileName mode)]
  have hquiet : ∀ (db : δ) {l : List Action},
      ((((st.logged [.call session xid (.fileOpen fileName mode)]).touchClient session).setDb
        db).logged l).Reflects opened := by
    intro db l
    have hread : (((st.logged [.call session xid (.fileOpen fileName mode)]).touchClient
        session).setDb db).Reflects opened :=
      hcalled.congr (fun _ => rfl) (fun e => by cases e <;> rfl) (fun _ => rfl)
        fun s => UMap.get_touch _ _ _
    exact hread.logged l
  by_cases hboth : (mode.has ModeFlag.createDirectory && mode.has ModeFlag.createFile) = true
  · right
    rw [step_both hboth hstep]
    exact ⟨.badArg, Leader.answer_call hxid (congrArg _ (List.append_nil _).symm),
      hquiet st.db⟩
  · have hvalid := eq_false_of_ne_true hboth
    cases step_ends E hstep with
    | fileOpen hends =>
      cases hends with
      | badArg _ hbad =>
        right
        exact ⟨.badArg, Leader.answer_call hxid (congrArg _ (List.append_nil _).symm),
          hquiet st.db⟩
      | @failed r db code _ _ _ =>
        right
        exact ⟨code, Leader.answer_call hxid (congrArg _ (List.append_nil _).symm), hquiet db⟩
      | @opened n db _ hname hcall =>
        left
        have hopens : opensNode E st.db fileName mode = true :=
          opensNode_iff.mpr ⟨hname, hvalid, n, db, hcall⟩
        exact ⟨_, Leader.answer_call hxid (List.append_assoc _ _ _),
          opened_reflects hcalled (hok hopens)⟩

theorem fileReopen_reflects (h : st.Reflects opened)
    (hstep : Leader.step E (.rpc session xid (.fileReopen fd mode)) st = some st') :
    st'.Reflects (Function.update opened session (opened session ++ [(fd, mode)])) ∧
      ∀ s, st'.client s = st.client s := by
  cases step_ends E hstep with
  | fileReopen => exact ⟨reopened_reflects (h.logged _), fun s => UMap.get_touch _ _ _⟩

theorem fileClose_reflects (h : st.Reflects opened) (hi : st.Indexed)
    (hok : ClosesAll E st session fd)
    (hstep : Leader.step E (.rpc session xid (.fileClose fd)) st = some st') :
    st'.Reflects (Function.update opened session (withoutFile fd.fileName (opened session))) := by
  cases step_ends E hstep with
  | fileClose hends => exact hends.reflects (h.logged _) hi hok

theorem fileDelete_reflects (h : st.Reflects opened) (hi : st.Indexed)
    (hok : DeletesNone E st session fd)
    (hstep : Leader.step E (.rpc session xid (.fileDelete fd)) st = some st') :
    st'.Reflects opened := by
  cases step_ends E hstep with
  | fileDelete hends => exact hends.reflects (h.logged _) hi hok

theorem startSession_reflects {clientId : Str} (h : st.Reflects opened)
    (hnil : opened session = [])
    (hstep : Leader.step E (.rpc session xid (.startSession clientId)) st = some st')
    (hyes : st.answer st' session xid = some (.bool true)) :
    st'.Reflects opened ∧ ∀ s, st'.client s = if s = session then clientId else st.client s := by
  cases step_ends E hstep with
  | startSession hends =>
    cases hends with
    | refused _ =>
      by_cases hxid : xid = internalXid
      · rw [Leader.answer_eq (List.append_assoc _ _ _), hxid] at hyes
        cases hyes
      · rw [Leader.answer_call hxid (congrArg _ (List.append_nil _).symm)] at hyes
        cases hyes
    | started _ =>
      have hclient : ∀ s, (((st.logged [.call session xid (.startSession clientId)]).started
          session clientId).logged (Leader.replyOf session xid (.bool true))).client s =
            if s = session then clientId else st.client s := fun s => UMap.get_set _ _ _ _
      refine ⟨⟨h.handles, fun e f s => ?_, fun c f => ?_⟩, hclient⟩
      · rw [← h.lists]
        cases e <;> rfl
      · refine (h.marks c f).trans (exists_congr fun s => ?_)
        by_cases hs : s = session
        · simp [hs, hnil]
        · rw [hclient, if_neg hs]

/-- A leader that has been initialised knows of no open file. -/
theorem initializeLeader_reflects (hstep : Leader.step E .initializeLeader st = some st') :
    st'.Reflects (fun _ => []) ∧ st'.Indexed := by
  cases step_ends E hstep with
  | initializeLeader hends =>
    cases hends with
    | @initialized files db _ =>
      obtain ⟨held, hrecovered⟩ := ((st.logged [.initialized]).cleared.setDb db).recovered_eq files
      rw [hrecovered]
      refine ⟨.empty (fun _ => rfl) (fun e f => ?_) fun _ => rfl, HandleIndex.empty⟩
      cases e <;> rfl

end Steps

/-! ## Two leaders with the same open files -/

/-- The session and the handle of a record. -/
def SessionFdPair.handle (q : SessionFdPair) : SessionId × FileHandler := (q.session, q.fd.value)

/-- `new` has the event lists, the ephemeral sets and the open handles of `old`,
    with `rename` for the sessions. -/
structure Leader.Rebuilds (old new : Leader δ) (rename : SessionId → SessionId) : Prop where
  lists : ∀ e f, ((new.listeners e).get f).Perm (((old.listeners e).get f).map rename)
  ephemeral : ∀ c, new.ephemeral c = old.ephemeral c
  files : ∀ f, ((new.file2fdMap.get f).map SessionFdPair.handle).Perm
    ((old.file2fdMap.get f).map fun q => (rename q.session, q.fd.value))
  sessions : ∀ s, old.fds s ≠ [] →
    ((new.fds (rename s)).map FdRecord.value).Perm ((old.fds s).map FdRecord.value)
  others : ∀ s', new.fds s' ≠ [] → ∃ s, old.fds s ≠ [] ∧ rename s = s'

/-- What the sessions have open is the same up to `rename`. -/
structure SameOpen (old new : Leader δ) (opened opened' : SessionId → List (FileHandler × Mode))
    (rename : SessionId → SessionId) : Prop where
  perm : ∀ s, opened s ≠ [] → (opened' (rename s)).Perm (opened s)
  onto : ∀ s', opened' s' ≠ [] → ∃ s, opened s ≠ [] ∧ rename s = s'
  inj : ∀ s s', opened s ≠ [] → opened s' ≠ [] → rename s = rename s' → s = s'
  names : ∀ s, opened s ≠ [] → new.client (rename s) = old.client s

section Rebuilding

/-- A list is an image of another if it counts its elements, and has no others. -/
theorem perm_map_of_count {α β : Type} [BEq α] [LawfulBEq α] [BEq β] [LawfulBEq β] {l : List α}
    {l' : List β} {g : α → β} (hinj : ∀ a ∈ l, ∀ a' ∈ l, g a = g a' → a = a')
    (hcount : ∀ a ∈ l, l'.count (g a) = l.count a) (honto : ∀ b ∈ l', ∃ a ∈ l, g a = b) :
    l'.Perm (l.map g) := by
  refine List.perm_iff_count.mpr fun b => ?_
  by_cases hb : b ∈ l'
  · obtain ⟨a, ha, rfl⟩ := honto b hb
    rw [hcount a ha, List.count, List.count, List.countP_map]
    refine List.countP_congr fun a' ha' => ?_
    rw [Function.comp_apply, beq_iff_eq, beq_iff_eq]
    constructor
    · rintro rfl
      rfl
    · exact hinj a' ha' a ha
  · rw [List.count_eq_zero.mpr hb, eq_comm]
    refine List.count_eq_zero.mpr fun hmap => hb ?_
    obtain ⟨a, ha, rfl⟩ := List.mem_map.mp hmap
    rw [← List.count_pos_iff, hcount a ha]
    exact List.count_pos_iff.mpr ha

variable {old new : Leader δ} {opened opened' : SessionId → List (FileHandler × Mode)}
  {rename : SessionId → SessionId} {st : Leader δ}

/-- The records of a file, counted by session and handle. -/
theorem Leader.Indexed.count_handle (hi : st.Indexed) {f : Str} {s : SessionId} {fd : FileHandler} :
    ((st.file2fdMap.get f).map SessionFdPair.handle).count (s, fd) =
      if fd.fileName = f then st.copies s fd else 0 := by
  split_ifs with hname
  · have hperm : (((st.fds s).filter fun p => p.value == fd).map (SessionFdPair.mk s)).Perm
        ((st.file2fdMap.get f).filter fun q => q.handle == (s, fd)) := by
      refine (List.perm_ext_iff_of_nodup ?_ ((hi.nodupFile f).filter _)).mpr fun q => ?_
      · refine ((hi.nodupSession s).filter _).map fun p p' heq => ?_
        exact (SessionFdPair.mk.inj heq).2
      · rw [List.mem_map, List.mem_filter]
        constructor
        · rintro ⟨p, hp, rfl⟩
          obtain ⟨hmem, hvalue⟩ := List.mem_filter.mp hp
          rw [beq_iff_eq] at hvalue
          subst hvalue
          subst hname
          exact ⟨hi.mem_file hmem, beq_self_eq_true _⟩
        · rintro ⟨hq, hhandle⟩
          obtain ⟨session, p⟩ := q
          obtain ⟨rfl, rfl⟩ := Prod.mk.inj (beq_iff_eq.mp hhandle)
          exact ⟨p, List.mem_filter.mpr ⟨hi.mem_session hq, beq_self_eq_true _⟩, rfl⟩
    have hlength := hperm.length_eq
    rw [List.length_map, ← List.countP_eq_length_filter, ← List.countP_eq_length_filter] at hlength
    unfold Leader.copies
    rw [List.count, List.count, List.countP_map, List.countP_map]
    exact hlength.symm
  · refine List.count_eq_zero.mpr fun hmem => hname ?_
    obtain ⟨q, hq, heq⟩ := List.mem_map.mp hmem
    rw [← (Prod.mk.inj heq).2]
    exact hi.filed f q hq

/-- Two leaders that reflect the same open files are alike. -/
theorem Leader.Reflects.rebuilds (hold : old.Reflects opened) (hnew : new.Reflects opened')
    (hi : old.Indexed) (hi' : new.Indexed) (h : SameOpen old new opened opened' rename) :
    old.Rebuilds new rename := by
  have hcopies : ∀ s, opened s ≠ [] → ∀ fd, new.copies (rename s) fd = old.copies s fd := by
    intro s hs fd
    unfold Leader.copies
    rw [(hnew.handles _).count_eq, (hold.handles _).count_eq]
    exact ((h.perm s hs).map _).count_eq fd
  have hcounts : ∀ s, opened s ≠ [] → ∀ e f,
      ((new.listeners e).get f).count (rename s) = ((old.listeners e).get f).count s := by
    intro s hs e f
    rw [hnew.lists, hold.lists]
    exact (h.perm s hs).countP_eq _
  have hopen : ∀ f, ∀ q ∈ old.file2fdMap.get f, opened q.session ≠ [] := by
    intro f q hq
    exact hold.fds_ne_nil.mp (List.ne_nil_of_mem (hi.mem_session hq))
  refine ⟨fun e f => ?_, fun c => ?_, fun f => ?_, fun s hs => ?_, fun s' hs' => ?_⟩
  · refine perm_map_of_count (fun s hs s' hs' => ?_) (fun s hs => ?_) fun s' hs' => ?_
    · exact h.inj s s' (hold.ne_nil_of_listed hs) (hold.ne_nil_of_listed hs')
    · exact hcounts s (hold.ne_nil_of_listed hs) e f
    · obtain ⟨s, hs, rfl⟩ := h.onto s' (hnew.ne_nil_of_listed hs')
      rw [← List.count_pos_iff, hcounts s hs, List.count_pos_iff] at hs'
      exact ⟨s, hs', rfl⟩
  · ext f
    rw [hnew.marks, hold.marks]
    constructor
    · rintro ⟨s', hs', p, hp, hrest⟩
      obtain ⟨s, hs, rfl⟩ := h.onto s' (List.ne_nil_of_mem hp)
      exact ⟨s, (h.names s hs).symm.trans hs', p, (h.perm s hs).mem_iff.mp hp, hrest⟩
    · rintro ⟨s, hs, p, hp, hrest⟩
      have hne := List.ne_nil_of_mem hp
      exact ⟨rename s, (h.names s hne).trans hs, p, (h.perm s hne).mem_iff.mpr hp, hrest⟩
  · have hpairs : ((old.file2fdMap.get f).map fun q => (rename q.session, q.fd.value)) =
        ((old.file2fdMap.get f).map SessionFdPair.handle).map (Prod.map rename id) := by
      rw [List.map_map]
      rfl
    have hmem : ∀ a ∈ (old.file2fdMap.get f).map SessionFdPair.handle, opened a.1 ≠ [] := by
      intro a ha
      obtain ⟨q, hq, rfl⟩ := List.mem_map.mp ha
      exact hopen f q hq
    rw [hpairs]
    refine perm_map_of_count (fun a ha a' ha' heq => ?_) (fun a ha => ?_) fun b hb => ?_
    · obtain ⟨hsession, hfd⟩ := Prod.mk.inj heq
      exact Prod.ext (h.inj _ _ (hmem a ha) (hmem a' ha') hsession) hfd
    · obtain ⟨s, fd⟩ := a
      rw [hi.count_handle, ← hcopies s (hmem _ ha)]
      exact hi'.count_handle
    · obtain ⟨s', fd⟩ := b
      rw [← List.count_pos_iff, hi'.count_handle] at hb
      split_ifs at hb with hname
      · obtain ⟨p, hp, _⟩ := Leader.copies_pos.mp hb
        obtain ⟨s, hs, rfl⟩ := h.onto s' (hnew.fds_ne_nil.mp (List.ne_nil_of_mem hp))
        refine ⟨(s, fd), ?_, rfl⟩
        rw [← List.count_pos_iff, hi.count_handle, if_pos hname, ← hcopies s hs]
        exact hb
      · cases hb
  · have hne := hold.fds_ne_nil.mp hs
    exact (hnew.handles _).trans (((h.perm s hne).map _).trans (hold.handles s).symm)
  · obtain ⟨s, hs, heq⟩ := h.onto s' (hnew.fds_ne_nil.mp hs')
    exact ⟨s, hold.fds_ne_nil.mpr hs, heq⟩

end Rebuilding

end SimpleChubby
