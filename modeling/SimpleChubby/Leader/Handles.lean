import SimpleChubby.Leader.Spec

/-!
# The two indexes of open handles

`file2fd_map` and `session2fd_map` hold the same records, one by file and one
by session. `HandleIndex` says so, with what keeps it inductive: an allocation
has one record and one session. Every handler keeps it, over any database.
-/

namespace SimpleChubby

/-- The two indexes list the same records. `next` bounds the allocations. -/
structure HandleIndex (byFile : UMap Str (List SessionFdPair))
    (bySession : UMap SessionId (List FdRecord)) (next : Nat) : Prop where
  inverse : ∀ s p, p ∈ bySession.get s ↔ ⟨s, p⟩ ∈ byFile.get p.value.fileName
  filed : ∀ f q, q ∈ byFile.get f → q.fd.value.fileName = f
  allocated : ∀ s p, p ∈ bySession.get s → p.address < next
  owned : ∀ s s' p p', p ∈ bySession.get s → p' ∈ bySession.get s' → p.address = p'.address →
    s = s' ∧ p = p'
  nodupSession : ∀ s, (bySession.get s).Nodup
  nodupFile : ∀ f, (byFile.get f).Nodup
  nonempty : ∀ f, byFile.find f ≠ some []

namespace HandleIndex

variable {byFile byFile' : UMap Str (List SessionFdPair)}
  {bySession bySession' : UMap SessionId (List FdRecord)} {next : Nat}

theorem empty : HandleIndex .empty .empty next := by
  have hsession : ∀ s, (UMap.empty : UMap SessionId (List FdRecord)).get s = [] := fun _ => rfl
  have hfile : ∀ f, (UMap.empty : UMap Str (List SessionFdPair)).get f = [] := fun _ => rfl
  constructor <;> simp [hsession, hfile]

/-- The index of sessions matters only through what its subscript reads. -/
theorem of_get (h : HandleIndex byFile bySession next)
    (hget : ∀ s, bySession'.get s = bySession.get s) : HandleIndex byFile bySession' next := by
  constructor
  · intro s p
    rw [hget]
    exact h.inverse s p
  · exact h.filed
  · intro s p hp
    rw [hget] at hp
    exact h.allocated s p hp
  · intro s s' p p' hp hp'
    rw [hget] at hp hp'
    exact h.owned s s' p p' hp hp'
  · intro s
    rw [hget]
    exact h.nodupSession s
  · exact h.nodupFile
  · exact h.nonempty

/-- The session and the record of a pair listed under a file. -/
theorem mem_session (h : HandleIndex byFile bySession next) {f : Str} {q : SessionFdPair}
    (hq : q ∈ byFile.get f) : q.fd ∈ bySession.get q.session := by
  rw [h.inverse, h.filed f q hq]
  exact hq

/-- Both lists grow by a record with a new allocation. -/
theorem opened (h : HandleIndex byFile bySession next) (s : SessionId) (fd : FileHandler) :
    HandleIndex (byFile.alter fd.fileName (· ++ [⟨s, ⟨next, fd⟩⟩]))
      (bySession.alter s (· ++ [⟨next, fd⟩])) (next + 1) := by
  have mem : ∀ s' p, p ∈ (bySession.alter s (· ++ [⟨next, fd⟩])).get s' ↔
      p ∈ bySession.get s' ∨ s' = s ∧ p = ⟨next, fd⟩ := by
    intro s' p
    rw [UMap.get_alter]
    split_ifs with hs
    · subst hs
      simp
    · simp [hs]
  have memFile : ∀ f q, q ∈ (byFile.alter fd.fileName (· ++ [⟨s, ⟨next, fd⟩⟩])).get f ↔
      q ∈ byFile.get f ∨ f = fd.fileName ∧ q = ⟨s, ⟨next, fd⟩⟩ := by
    intro f q
    rw [UMap.get_alter]
    split_ifs with hf
    · subst hf
      simp
    · simp [hf]
  have hnew : ∀ s' p, p ∈ bySession.get s' → p.address ≠ next := by
    intro s' p hp
    have := h.allocated s' p hp
    omega
  constructor
  · intro s' p
    rw [mem, memFile, h.inverse]
    constructor
    · rintro (hp | ⟨rfl, rfl⟩)
      · exact Or.inl hp
      · exact Or.inr ⟨rfl, rfl⟩
    · rintro (hp | ⟨_, hp⟩)
      · exact Or.inl hp
      · cases hp
        exact Or.inr ⟨rfl, rfl⟩
  · intro f q hq
    rcases (memFile f q).mp hq with hq | ⟨rfl, rfl⟩
    · exact h.filed f q hq
    · rfl
  · intro s' p hp
    rcases (mem s' p).mp hp with hp | ⟨_, rfl⟩
    · have := h.allocated s' p hp
      omega
    · exact Nat.lt_succ_self next
  · intro s₁ s₂ p₁ p₂ hp₁ hp₂ heq
    rw [mem] at hp₁ hp₂
    rcases hp₁ with hp₁ | ⟨rfl, rfl⟩
    · rcases hp₂ with hp₂ | ⟨rfl, rfl⟩
      · exact h.owned s₁ s₂ p₁ p₂ hp₁ hp₂ heq
      · exact absurd heq (hnew s₁ p₁ hp₁)
    · rcases hp₂ with hp₂ | ⟨rfl, rfl⟩
      · exact absurd heq.symm (hnew s₂ p₂ hp₂)
      · exact ⟨rfl, rfl⟩
  · intro s'
    rw [UMap.get_alter]
    split_ifs with hs
    · refine List.nodup_append'.mpr ⟨h.nodupSession s, List.nodup_singleton _, ?_⟩
      simp only [List.disjoint_singleton]
      intro hp
      exact hnew s _ hp rfl
    · exact h.nodupSession s'
  · intro f
    rw [UMap.get_alter]
    split_ifs with hf
    · refine List.nodup_append'.mpr ⟨h.nodupFile _, List.nodup_singleton _, ?_⟩
      simp only [List.disjoint_singleton]
      intro hq
      exact hnew s _ (h.mem_session hq) rfl
    · exact h.nodupFile f
  · intro f
    rw [UMap.find_alter]
    split_ifs with hf
    · simp
    · exact h.nonempty f

/-- Dropping from both indexes the pairs that fail a test, which tells records
    apart by their allocations, and every list by file that this empties. -/
theorem dropped (h : HandleIndex byFile bySession next) (keep : SessionFdPair → Prop)
    (hsession : ∀ s p, p ∈ bySession'.get s ↔ p ∈ bySession.get s ∧ keep ⟨s, p⟩)
    (hfile : ∀ f q, q ∈ byFile'.get f ↔ q ∈ byFile.get f ∧ keep q)
    (hnodup : ∀ s, (bySession'.get s).Nodup) (hnodupFile : ∀ f, (byFile'.get f).Nodup)
    (hnonempty : ∀ f, byFile'.find f ≠ some []) : HandleIndex byFile' bySession' next := by
  constructor
  · intro s p
    rw [hsession, hfile, h.inverse]
  · intro f q hq
    exact h.filed f q ((hfile f q).mp hq).1
  · intro s p hp
    exact h.allocated s p ((hsession s p).mp hp).1
  · intro s s' p p' hp hp'
    exact h.owned s s' p p' ((hsession s p).mp hp).1 ((hsession s' p').mp hp').1
  · exact hnodup
  · exact hnodupFile
  · exact hnonempty

/-- `fileClose` removes one record from both indexes. -/
theorem removed (h : HandleIndex byFile bySession next) {s : SessionId} {fd : FdRecord}
    (hfd : fd ∈ bySession.get s) :
    HandleIndex
      ((byFile.alter fd.value.fileName
        (·.filter fun p => !(p.session == s && p.fd.address == fd.address))).eraseIf
          fd.value.fileName List.isEmpty)
      ((bySession.alter s (·.filter fun f => f.address != fd.address)).eraseIf s List.isEmpty)
      next := by
  have hempty : ∀ {α : Type} (l : List α), l.isEmpty = true → l = default :=
    fun l hl => List.isEmpty_iff.mp hl
  have hsame : ∀ s' p, p ∈ bySession.get s' → (s' = s ∧ p.address = fd.address ↔
      (⟨s', p⟩ : SessionFdPair) = ⟨s, fd⟩) := by
    intro s' p hp
    constructor
    · rintro ⟨_, haddr⟩
      obtain ⟨rfl, rfl⟩ := h.owned s' s p fd hp hfd haddr
      rfl
    · intro heq
      cases heq
      exact ⟨rfl, rfl⟩
  refine h.dropped (fun q => q ≠ ⟨s, fd⟩) ?_ ?_ ?_ ?_ ?_
  · intro s' p
    rw [UMap.get_eraseIf _ _ _ hempty, UMap.get_alter]
    split_ifs with hs
    · subst hs
      rw [List.mem_filter]
      refine and_congr_right fun hp => ?_
      rw [ne_eq, ← hsame s' p hp]
      simp
    · constructor
      · intro hp
        exact ⟨hp, fun heq => hs (congrArg SessionFdPair.session heq)⟩
      · exact And.left
  · intro f q
    rw [UMap.get_eraseIf _ _ _ hempty, UMap.get_alter]
    split_ifs with hf
    · subst hf
      rw [List.mem_filter]
      refine and_congr_right fun hq => ?_
      rw [ne_eq, ← hsame q.session q.fd (h.mem_session hq), not_and_or]
      simp
    · constructor
      · intro hq
        refine ⟨hq, ?_⟩
        rintro rfl
        exact hf (h.filed f _ hq).symm
      · exact And.left
  · intro s'
    rw [UMap.get_eraseIf _ _ _ hempty, UMap.get_alter]
    split_ifs with hs
    · exact (h.nodupSession s).filter _
    · exact h.nodupSession s'
  · intro f
    rw [UMap.get_eraseIf _ _ _ hempty, UMap.get_alter]
    split_ifs with hf
    · exact (h.nodupFile _).filter _
    · exact h.nodupFile f
  · intro f
    rw [UMap.find_eraseIf, UMap.get_alter, if_pos rfl, UMap.find_alter]
    by_cases hf : f = fd.value.fileName
    · simp only [hf, true_and, if_true]
      split_ifs with hnil
      · simp
      · intro heq
        rw [Option.some.inj heq] at hnil
        exact hnil rfl
    · simp only [hf, false_and, if_false]
      exact h.nonempty f

/-- The loop of `fileDelete` keeps the records whose allocation is not listed. -/
theorem get_dropFds (l : List SessionFdPair) (m : UMap SessionId (List FdRecord))
    (s : SessionId) :
    (dropFds l m).get s =
      (m.get s).filter fun f => l.all fun p => p.session != s || f.address != p.fd.address := by
  induction l generalizing m with
  | nil => simp [dropFds]
  | cons p rest ih =>
    rw [dropFds, ih, UMap.get_eraseIf _ _ _ (fun l hl => List.isEmpty_iff.mp hl), UMap.get_alter]
    split_ifs with hs
    · subst hs
      rw [List.filter_filter]
      apply List.filter_congr
      intro f _
      simp [Bool.and_comm]
    · apply List.filter_congr
      intro f _
      simp [Ne.symm hs]

/-- `fileDelete` removes every record of a file from both indexes. -/
theorem deleted (h : HandleIndex byFile bySession next) (f : Str) :
    HandleIndex ((byFile.touch f).erase f) (dropFds (byFile.get f) bySession) next := by
  refine h.dropped (fun q => q.fd.value.fileName ≠ f) ?_ ?_ ?_ ?_ ?_
  · intro s p
    rw [get_dropFds, List.mem_filter]
    refine and_congr_right fun hp => ?_
    simp only [List.all_eq_true, Bool.or_eq_true, bne_iff_ne]
    constructor
    · intro hall hname
      have hmem : ⟨s, p⟩ ∈ byFile.get f := by
        rw [← hname]
        exact (h.inverse s p).mp hp
      rcases hall _ hmem with hs | haddr
      · exact hs rfl
      · exact haddr rfl
    · intro hname q hq
      by_contra hcon
      obtain ⟨hs, haddr⟩ := not_or.mp hcon
      obtain ⟨_, rfl⟩ := h.owned s q.session p q.fd hp (h.mem_session hq) (not_not.mp haddr)
      exact hname (h.filed f q hq)
  · intro f' q
    rw [UMap.get_erase, UMap.get_touch]
    split_ifs with hf
    · subst hf
      constructor
      · intro hq
        cases hq
      · rintro ⟨hq, hname⟩
        exact absurd (h.filed _ q hq) hname
    · constructor
      · intro hq
        refine ⟨hq, ?_⟩
        rw [h.filed f' q hq]
        exact hf
      · exact And.left
  · intro s
    rw [get_dropFds]
    exact (h.nodupSession s).filter _
  · intro f'
    rw [UMap.get_erase, UMap.get_touch]
    split_ifs with hf
    · exact List.nodup_nil
    · exact h.nodupFile f'
  · intro f'
    rw [UMap.find_erase, UMap.find_touch]
    split_ifs with hf
    · simp
    · exact h.nonempty f'

end HandleIndex

/-! ## The handlers keep the index -/

variable {δ : Type}

/-- The indexes of a leader agree. -/
abbrev Leader.Indexed (st : Leader δ) : Prop :=
  HandleIndex st.file2fdMap st.session2fdMap st.nextAddress

namespace Leader.Indexed

variable {st st' : Leader δ} {session : SessionId} {fd : FileHandler}

theorem foundFd (h : st.Indexed) (session : SessionId) (fd : FileHandler) :
    (st.foundFd session fd).Indexed := by
  unfold Leader.Indexed Leader.foundFd
  have ht : HandleIndex st.file2fdMap (st.session2fdMap.touch session) st.nextAddress :=
    h.of_get fun s => UMap.get_touch _ _ _
  by_cases hfound : ((st.fds session).find? (sameFd fd)).isSome = true
  · simp only [hfound, if_true]
    exact ht
  · simp only [hfound]
    exact ht.opened session fd

end Leader.Indexed

/-- The record that `findFd` returns is in the session's list afterwards. -/
theorem Leader.findFd_mem (st : Leader δ) (session : SessionId) (fd : FileHandler) :
    st.findFd session fd ∈ (st.foundFd session fd).fds session := by
  unfold Leader.fds Leader.findFd
  rw [Leader.foundFd_session2fdMap]
  cases hfind : (st.fds session).find? (sameFd fd) with
  | none =>
    rw [if_neg (by simp), UMap.get_alter, if_pos rfl]
    simp
  | some p =>
    rw [if_pos (by simp), UMap.get_touch]
    exact List.mem_of_find?_eq_some hfind

/-- Looking a handle up keeps the records that are there. -/
theorem Leader.mem_foundFd (st : Leader δ) (session : SessionId) (fd : FileHandler)
    {s : SessionId} {p : FdRecord} (hp : p ∈ st.fds s) : p ∈ (st.foundFd session fd).fds s := by
  unfold Leader.fds
  rw [Leader.foundFd_session2fdMap]
  split_ifs
  · rw [UMap.get_touch]
    exact hp
  · rw [UMap.get_alter, UMap.get_touch, UMap.get_touch]
    split_ifs with hs
    · subst hs
      exact List.mem_append_left _ hp
    · exact hp

section Handlers

variable {E : Service δ} {session : SessionId} {xid : Xid} {fd : FileHandler} {st st' : Leader δ}

/-- `release` touches the indexes only through `findFd`. -/
theorem ReleaseEnds.fds (h : ReleaseEnds E session xid fd st (.ret () st')) :
    st'.file2fdMap = (st.foundFd session fd).file2fdMap ∧
      st'.session2fdMap = (st.foundFd session fd).session2fdMap ∧
      st'.nextAddress = (st.foundFd session fd).nextAddress := by
  cases h with
  | threw hc hdb => exact ⟨rfl, rfl, rfl⟩
  | refused hc hdb => exact ⟨rfl, rfl, rfl⟩
  | released hc hdb hoff =>
    cases hoff with
    | noQueue hq => exact ⟨rfl, rfl, rfl⟩
    | lastWaiter hq hw => exact ⟨rfl, rfl, rfl⟩
    | moreWaiters hq hr hw => exact ⟨rfl, rfl, rfl⟩

theorem ReleaseEnds.indexed (h : ReleaseEnds E session xid fd st (.ret () st'))
    (hi : st.Indexed) : st'.Indexed := by
  obtain ⟨hfile, hsession, hnext⟩ := h.fds
  unfold Leader.Indexed
  rw [hfile, hsession, hnext]
  exact hi.foundFd session fd

theorem ReclaimEnds.indexed {clientId : Str}
    (h : ReclaimEnds E session fd clientId st (.ret () st')) (hi : st.Indexed) : st'.Indexed := by
  cases h with
  | notHeld _ => exact hi
  | held _ hr => exact hr.indexed hi

/-- Reclaiming the lock keeps the records that are there. -/
theorem ReclaimEnds.mem_fds {clientId : Str}
    (h : ReclaimEnds E session fd clientId st (.ret () st')) {s : SessionId} {p : FdRecord}
    (hp : p ∈ st.fds s) : p ∈ st'.fds s := by
  cases h with
  | notHeld _ => exact hp
  | held _ hr =>
    unfold Leader.fds
    rw [hr.fds.2.1]
    exact st.mem_foundFd session fd hp

theorem DeleteEnds.indexed {r : Except Unit Unit}
    (h : DeleteEnds E session xid fd st (.ret r st')) (hi : st.Indexed) : st'.Indexed := by
  have hfound : (st.entered session fd).Indexed := hi.foundFd session fd
  cases h with
  | threw hc hdb => exact hfound
  | refused hc hdb => exact hfound
  | deleted hc hdb => exact HandleIndex.deleted hfound fd.fileName

theorem AcquireEnds.indexed {busy : Leader δ → Leader δ}
    (h : AcquireEnds E session xid fd busy st (.ret () st')) (hi : st.Indexed)
    (hbusy : ∀ st₁ : Leader δ, st₁.Indexed → (busy st₁).Indexed) : st'.Indexed := by
  have hfound : (st.entered session fd).Indexed := hi.foundFd session fd
  cases h with
  | threw hc hdb => exact hfound
  | taken hc hdb hq => exact hfound
  | busy hc hdb => exact hbusy _ hfound

theorem ClearsQueue.fds {fileName : Str} (h : ClearsQueue session fileName st (some st')) :
    st'.file2fdMap = st.file2fdMap ∧ st'.session2fdMap = st.session2fdMap ∧
      st'.nextAddress = st.nextAddress := by
  cases h with
  | noQueue _ => exact ⟨rfl, rfl, rfl⟩
  | kept _ _ _ => exact ⟨rfl, rfl, rfl⟩
  | dropped _ _ => exact ⟨rfl, rfl, rfl⟩

theorem CloseEnds.indexed (h : CloseEnds E session xid fd st (.ret () st')) (hi : st.Indexed) :
    st'.Indexed := by
  have hfound : (st.entered session fd).Indexed := hi.foundFd session fd
  cases h with
  | deletes hc hreclaim _ hdelete =>
    have hi₁ := hreclaim.indexed hfound
    exact hdelete.indexed hi₁
  | closes hc hreclaim _ hclear =>
    have hi₁ := hreclaim.indexed hfound
    have hmem := hreclaim.mem_fds ((st.touchClient session).findFd_mem session fd)
    obtain ⟨hfile, hsession, hnext⟩ := hclear.fds
    unfold Leader.Indexed
    simp only [Leader.logged_file2fdMap, Leader.logged_session2fdMap, Leader.logged_nextAddress,
      Leader.unsubscribed_file2fdMap, Leader.unsubscribed_session2fdMap,
      Leader.unsubscribed_nextAddress, hfile, hsession, hnext]
    exact HandleIndex.removed hi₁ hmem

theorem CloseAllEnds.indexed {l : List FdRecord} {o : Outcome Stop (Leader δ) Unit}
    (h : CloseAllEnds E session l st o) (hi : st.Indexed) (ho : o = .ret () st') :
    st'.Indexed := by
  induction h with
  | done =>
    cases ho
    exact hi
  | stopped _ => cases ho
  | next hclose _ ih => exact ih (hclose.indexed hi) ho

theorem Leader.recovered_fds (files : List (Str × Str)) (st : Leader δ) :
    (st.recovered files).file2fdMap = st.file2fdMap ∧
      (st.recovered files).session2fdMap = st.session2fdMap ∧
      (st.recovered files).nextAddress = st.nextAddress := by
  obtain ⟨held, hrecovered⟩ := st.recovered_eq files
  rw [hrecovered]
  exact ⟨rfl, rfl, rfl⟩

/-- One input keeps the indexes in agreement. -/
theorem Handles.indexed {input : Input} (h : Handles E st input (.ret () st'))
    (hi : st.Indexed) : st'.Indexed := by
  have hlogged : ∀ {l}, (st.logged l).Indexed := hi
  cases h with
  | fileOpen ho =>
    cases ho with
    | badArg hc hbad => exact hi
    | failed hc hname hdb => exact hi
    | opened hc hname hdb => exact HandleIndex.opened hi _ _
  | fileClose ho => exact ho.indexed hi
  | fileDelete ho => exact ho.indexed hi
  | getContentsAndStat ho =>
    cases ho with
    | answered hdb hb hf => exact hlogged.foundFd _ _
  | setContents ho =>
    cases ho with
    | failed hdb => exact hlogged.foundFd _ _
    | written hdb => exact hlogged.foundFd _ _
  | acquire ho => exact ho.indexed hi fun _ h₁ => h₁
  | tryAcquire ho => exact ho.indexed hi fun _ h₁ => h₁
  | release ho => exact ho.indexed hi
  | startSession ho =>
    cases ho with
    | refused hl => exact hi
    | started hl => exact hi
  | fileReopen => exact HandleIndex.opened hi _ _
  | @disconnect session _ ho =>
    cases ho with
    | left hall =>
      have ht : (st.touchFds session).Indexed := hi.of_get fun s => UMap.get_touch _ _ _
      have hleft := hall.indexed ht rfl
      exact hleft
  | initializeLeader ho =>
    cases ho with
    | initialized hdb =>
      unfold Leader.Indexed
      obtain ⟨hfile, hsession, hnext⟩ := Leader.recovered_fds _
        (Leader.setDb (st.logged _).cleared _)
      rw [hfile, hsession, hnext]
      exact HandleIndex.empty

theorem indexed_reach {E : Service δ} {db : δ} {masterSequenceNumber : UInt64} {st : Leader δ}
    (h : (E.leader db masterSequenceNumber).Reach (fun _ _ => True) st) : st.Indexed := by
  refine h.invariant (I := Leader.Indexed) ?_ ?_
  · rintro st rfl
    exact HandleIndex.empty
  · intro st st' input _ hi _ hstep
    exact (step_ends E hstep).indexed hi

end Handlers

/-- In every state the leader can reach, over any database and any inputs, the
    two indexes of open handles list the same records. -/
theorem handleIndex_reachable (E : Service δ) (db : δ) (masterSequenceNumber : UInt64)
    (st : Leader δ) (h : (E.leader db masterSequenceNumber).Reach (fun _ _ => True) st) :
    HandleIndex st.file2fdMap st.session2fdMap st.nextAddress :=
  indexed_reach h

theorem handleIndex_contention :
    ∃ st, ((Service.paxos .refusing (fun _ => 0) inlineNamed).leader .empty 0).exec
      (fun _ _ => True) contention
      (.fresh .empty 0) = some st ∧ HandleIndex st.file2fdMap st.session2fdMap st.nextAddress := by
  have hrun :
      (((Service.paxos .refusing (fun _ => 0) inlineNamed).leader .empty 0).exec (fun _ _ => True)
      contention (.fresh .empty 0)).isSome = true := by decide
  obtain ⟨st, hst⟩ := Option.isSome_iff_exists.mp hrun
  have hreach := Lts.Reach.exec (.init rfl) hst
  exact ⟨st, hst, handleIndex_reachable _ _ _ st hreach⟩

end SimpleChubby
