import SimpleChubby.ServerDb.ReadBack

/-!
# Exclusion by the stored owner

`testAndSetLockOwner` writes the client id as a double-quoted token into the
column that holds `empty` while the lock is free. So it excludes for a client id
that stands for its own text and is not that word: `startSession` accepts any
string.
-/

namespace SimpleChubby

open SqlText

/-- The calls that free the lock of `f` where they succeed. -/
def DbOp.frees (f : Str) : DbOp → Bool
  | .checkAndDelete name _ => name == f
  | .resetLockOwner name _ => name == f
  | _ => false

section Statement

variable (sq : Engine) (strHash : Str → UInt64)

/-- The call is a successful reset or delete of `f`. -/
def Frees (f : Str) (st : Store) (op : DbOp) : Prop :=
  op.frees f = true ∧ ∃ st', op.run sq strHash st = .ret (.done true) st'

/-- `getStates` reports the client, and no other, as the owner of `f`. -/
def Reports (f clientId : Str) (st : Store) : Prop :=
  ∃ states, ServerDb.getStates st = .ret states st ∧ (f, clientId) ∈ states ∧
    ∀ owner, (f, owner) ∈ states → owner = clientId

/-- Once the client has locked `f`, nobody locks it and `getStates` reports the
    client as its owner until a reset or delete of `f` succeeds. -/
def Excludes (st : Store) (f : Str) (n : UInt64) (clientId : Str) : Prop :=
  ∀ st', ServerDb.testAndSetLockOwner sq f n clientId st = .ret true st' →
    ∀ st'', (ServerDb.calls sq strHash st').Reach
        (fun s op => Contained s op ∧ ¬ Frees sq strHash f s op) st'' →
      (∀ n' clientId', ServerDb.testAndSetLockOwner sq f n' clientId' st'' = .ret false st'') ∧
        Reports f clientId st''

/-- The client id stands for its own text in the row, and is not the word for a
    free lock. -/
structure Possesses (clientId : Str) (r : FsRow) : Prop where
  carries : Carries clientId r
  held : clientId ≠ noOwner

end Statement

section Runs

variable {sq : Engine} {strHash : Str → UInt64} {st st' : Store} {f clientId : Str} {r : FsRow}

/-! ## Distinct names -/

/-- A contained call leaves the names of the rows distinct. -/
theorem CallEnds.nodup {op : DbOp} {res : DbResult} (h : CallEnds strHash st op (.ret res st'))
    (hst : (st.fs.map FsRow.name).Nodup) : (st'.fs.map FsRow.name).Nodup := by
  cases h with
  | created hnone _ _ hparent =>
    rw [Store.names_update hparent.stable.name]
    exact Store.nodup_create hst hnone _ _
  | deleted _ _ hparent =>
    rw [Store.names_update hparent.stable.name]
    exact Store.nodup_remove hst
  | updated _ _ _ =>
    rw [Store.names_update (FsRow.stable_withText _ _ _).name]
    exact hst
  | locked _ _ _ _ =>
    rw [Store.names_update (FsRow.stable_withOwnerText _ _).name]
    exact hst
  | unlocked _ _ =>
    rw [Store.names_update FsRow.stable_withoutOwner.name]
    exact hst
  | _ => exact hst

/-! ## The owner of a node -/

/-- The owner of `f` after an update of the rows of some name. -/
theorem owner_update {g : FsRow → FsRow} {name : Str} (hname : ∀ r, (g r).name = r.name)
    (hrow : st.row f = some r) (howner : r.lockOwner = clientId)
    (hg : name = f → (g r).lockOwner = clientId) :
    ∃ r', (st.update name g).row f = some r' ∧ r'.lockOwner = clientId := by
  rw [Store.row_update hname, hrow]
  by_cases hf : f = name
  · rw [if_pos hf]
    exact ⟨g r, rfl, hg hf.symm⟩
  · rw [if_neg hf]
    exact ⟨r, rfl, howner⟩

theorem ParentChange.owner {parent : Str} {g : FsRow → FsRow} (h : ParentChange st parent g)
    (r : FsRow) : (g r).lockOwner = r.lockOwner := by
  cases h with
  | none => rfl
  | text _ _ _ => rfl

/-- A contained call that is no successful reset or delete of `f` leaves its owner alone. -/
theorem CallEnds.owner {op : DbOp} {res : DbResult} (h : CallEnds strHash st op (.ret res st'))
    (hno : ¬ (op.frees f = true ∧ res = .done true)) (hheld : clientId ≠ noOwner)
    (hrow : st.row f = some r) (howner : r.lockOwner = clientId) :
    ∃ r', st'.row f = some r' ∧ r'.lockOwner = clientId := by
  cases h with
  | @created name isDir m g hnone _ hm hparent =>
    have hne : f ≠ name := by
      rintro rfl
      rw [hrow] at hnone
      cases hnone
    have hrow' : (st.create name isDir (UInt64.ofInt m + 1)).row f = some r := by
      rw [Store.row_create hnone, if_neg hne]
      exact hrow
    exact owner_update hparent.stable.name hrow' howner fun _ => (hparent.owner r).trans howner
  | @deleted name n' r' g hpresent hn hparent =>
    have hne : f ≠ name := by
      rintro rfl
      exact hno ⟨by simp [DbOp.frees], rfl⟩
    have hrow' : (st.remove name).row f = some r := by
      rw [Store.row_remove, if_neg hne]
      exact hrow
    exact owner_update hparent.stable.name hrow' howner fun _ => (hparent.owner r).trans howner
  | updated _ _ _ =>
    exact owner_update (FsRow.stable_withText _ _ _).name hrow howner fun _ => howner
  | @locked name _ _ _ r' hrow' _ hfree _ =>
    -- the lock that is taken is that of another node
    refine owner_update (FsRow.stable_withOwnerText _ _).name hrow howner fun hf => ?_
    subst hf
    obtain rfl := Option.some.inj (hrow'.symm.trans hrow)
    exact absurd (howner.symm.trans hfree) hheld
  | @unlocked name _ _ _ _ =>
    refine owner_update FsRow.stable_withoutOwner.name hrow howner fun hf => ?_
    exact absurd ⟨by simp [DbOp.frees, hf], rfl⟩ hno
  | _ => exact ⟨r, hrow, howner⟩

/-- A sound store with distinct names in which the client owns the lock of `f`. -/
structure HeldBy (f clientId : Str) (st : Store) : Prop where
  sound : st.Sound
  nodup : (st.fs.map FsRow.name).Nodup
  owner : ∃ r, st.row f = some r ∧ r.lockOwner = clientId

theorem HeldBy.reach (hst : HeldBy f clientId st) (hheld : clientId ≠ noOwner)
    (h : (ServerDb.calls sq strHash st).Reach
      (fun s op => Contained s op ∧ ¬ Frees sq strHash f s op) st') : HeldBy f clientId st' := by
  refine h.invariant (I := HeldBy f clientId) ?_ ?_
  · rintro s rfl
    exact hst
  · rintro s s' op - ⟨hs, hnodup, r, hrow, howner⟩ ⟨hop, hno⟩ hstep
    obtain ⟨res, hrun, hends⟩ := hs.step_cases hop hstep
    refine ⟨hends.sound hop hs rfl, hends.nodup hnodup,
      hends.owner (fun hfrees => hno ?_) hheld hrow howner⟩
    obtain ⟨hfrees, rfl⟩ := hfrees
    exact ⟨hfrees, s', hrun⟩

theorem HeldBy.reports (h : HeldBy f clientId st) : Reports f clientId st := by
  obtain ⟨r, hrow, howner⟩ := h.owner
  refine ⟨_, rfl, List.mem_map.mpr ⟨r, Store.row_mem hrow, ?_⟩, fun owner hmem => ?_⟩
  · rw [Store.row_name hrow, howner]
  · obtain ⟨r', hr', heq⟩ := List.mem_map.mp hmem
    have hname : r'.name = f := congrArg Prod.fst heq
    have hrow' := Store.row_eq h.nodup hr'
    rw [hname, hrow] at hrow'
    obtain rfl := Option.some.inj hrow'
    exact (congrArg Prod.snd heq).symm.trans howner

/-! ## The law -/

/-- Where the token is carried, a free lock is taken and what it stands for stored. -/
theorem testAndSetLockOwner_stores (hst : st.Sound) (hrow : st.row f = some r)
    (hfree : r.lockOwner = noOwner) {value : Str} (hvalue : quoted clientId = some value) :
    ServerDb.testAndSetLockOwner sq f (UInt64.ofInt r.instanceNumber) clientId st =
      .ret true (st.update f
        (FsRow.withOwnerText value (UInt64.ofInt r.lockGenerationNumber + 1))) := by
  have hplain : Plain f := Store.row_name hrow ▸ (hst.rows r (Store.row_mem hrow)).name
  have hends := ServerDb.testAndSetLockOwner_text sq hst.idle hplain
    (UInt64.ofInt r.instanceNumber) hvalue
  generalize ServerDb.testAndSetLockOwner sq f (UInt64.ofInt r.instanceNumber) clientId st = o
    at hends ⊢
  cases hends with
  | refused hwhy =>
    rcases hwhy r hrow with hn | howner
    · exact absurd rfl hn
    · exact absurd hfree howner
  | locked hrow' _ _ =>
    obtain rfl := Option.some.inj (hrow.symm.trans hrow')
    rfl

theorem row_owned (hrow : st.row f = some r) (value : Str) (generation : UInt64) :
    (st.update f (FsRow.withOwnerText value generation)).row f =
      some (r.withOwnerText value generation) := by
  rw [Store.row_update (FsRow.stable_withOwnerText _ _).name, if_pos rfl, hrow]
  rfl

/-- A client id that stands for its own text and is not the word for a free lock excludes. -/
theorem Possesses.excludes (h : Possesses clientId r) (hst : st.Sound)
    (hnodup : (st.fs.map FsRow.name).Nodup)
    (hrow : st.row f = some r) (hfree : r.lockOwner = noOwner) :
    Excludes sq strHash st f (UInt64.ofInt r.instanceNumber) clientId := by
  have hplain : Plain f := Store.row_name hrow ▸ (hst.rows r (Store.row_mem hrow)).name
  intro st' hlock st'' hreach
  rw [testAndSetLockOwner_stores hst hrow hfree h.carries.quoted] at hlock
  cases hlock
  have hstored : HeldBy f clientId (st.update f
      (FsRow.withOwnerText clientId (UInt64.ofInt r.lockGenerationNumber + 1))) := by
    refine ⟨hst.update fun r hr => hr.withOwnerText h.carries.quoted _, ?_,
      _, row_owned hrow _ _, h.carries.column⟩
    rw [Store.names_update (FsRow.stable_withOwnerText _ _).name]
    exact hnodup
  have hheld := hstored.reach h.held hreach
  refine ⟨fun n' clientId' => ?_, hheld.reports⟩
  obtain ⟨r', hrow', howner⟩ := hheld.owner
  exact testAndSetLockOwner_held sq hplain hrow' (howner ▸ h.held) n' clientId'

/-- A client id that excludes stands for its own text and is not the word for a free lock. -/
theorem Excludes.possesses (hst : st.Sound) (hrow : st.row f = some r)
    (hfree : r.lockOwner = noOwner)
    (hquoted : quoted clientId ≠ none)
    (h : Excludes sq strHash st f (UInt64.ofInt r.instanceNumber) clientId) :
    Possesses clientId r := by
  obtain ⟨value, hvalue⟩ := Option.ne_none_iff_exists'.mp hquoted
  have hsound : r.Sound := hst.rows r (Store.row_mem hrow)
  have hstored := row_owned hrow value (UInt64.ofInt r.lockGenerationNumber + 1)
  obtain ⟨hexcluded, states, hstates, hmem, hunique⟩ :=
    h _ (testAndSetLockOwner_stores hst hrow hfree hvalue) _ (.init rfl)
  have howner : textValue value r = clientId := by
    cases hstates
    refine hunique _ (List.mem_map.mpr ⟨_, Store.row_mem hstored, ?_⟩)
    rw [Store.row_name hstored]
    rfl
  refine ⟨carries_of_stored hsound hvalue howner, fun hempty => ?_⟩
  -- the row is free, so the lock is taken again
  have hagain : ServerDb.testAndSetLockOwner sq f _ clientId _ = .ret true _ :=
    testAndSetLockOwner_stores (hst.update fun r hr => hr.withOwnerText hvalue _) hstored
      (howner.trans hempty) hvalue
  rw [hexcluded] at hagain
  cases hagain

/-- In every store that contained calls lead to, a client id sent as one token
    excludes others from a free lock if and only if it stands for its own text there
    and is not the word for a free lock. -/
theorem excludes_iff (h : (ServerDb.calls sq strHash Store.empty).Reach Contained st)
    (hrow : st.row f = some r) (hfree : r.lockOwner = noOwner) :
    (Possesses clientId r → Excludes sq strHash st f (UInt64.ofInt r.instanceNumber) clientId) ∧
    (quoted clientId ≠ none →
      Excludes sq strHash st f (UInt64.ofInt r.instanceNumber) clientId →
        Possesses clientId r) := by
  have hst : st.Sound ∧ (st.fs.map FsRow.name).Nodup := by
    refine h.invariant (I := fun s => s.Sound ∧ (s.fs.map FsRow.name).Nodup) ?_ ?_
    · rintro s rfl
      exact ⟨Store.sound_empty, Store.ready_empty.nodup⟩
    · rintro s s' op - ⟨hs, hnodup⟩ hop hstep
      obtain ⟨res, -, hends⟩ := hs.step_cases hop hstep
      exact ⟨hends.sound hop hs rfl, hends.nodup hnodup⟩
  exact ⟨fun hpossesses => hpossesses.excludes hst.1 hst.2 hrow hfree,
    fun hquoted hexcludes => hexcludes.possesses hst.1 hrow hfree hquoted⟩

end Runs

/-- The client `42` locks a new file and excludes the others. -/
theorem excludes_decimal :
    Excludes Engine.refusing (fun _ => 0) oneFile "/f".toList 1 "42".toList := by
  have hlaw : (Possesses "42".toList oneFileRow → _) ∧ _ :=
    excludes_iff (oneFile_reach fun _ => 0) (f := "/f".toList) rfl rfl
  exact hlaw.1 ⟨⟨by decide, by decide, by decide⟩, by decide⟩

/-- A client called `empty` leaves the lock free. -/
theorem not_excludes :
    ¬ ∀ st, (ServerDb.calls Engine.refusing (fun _ => 0) Store.empty).Reach Contained st →
      ∀ f r clientId, st.row f = some r → r.lockOwner = noOwner →
        Excludes Engine.refusing (fun _ => 0) st f (UInt64.ofInt r.instanceNumber) clientId := by
  intro h
  have hexcludes := h oneFile (oneFile_reach _) "/f".toList oneFileRow noOwner rfl rfl
  have hst : oneFile.Sound :=
    Store.sound_empty.reach (fun _ _ hop => hop) (oneFile_reach fun _ => 0)
  have hpossesses := Excludes.possesses hst rfl rfl (by decide) hexcludes
  exact hpossesses.held rfl

end SimpleChubby
