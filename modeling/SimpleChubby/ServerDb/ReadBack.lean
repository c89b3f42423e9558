import SimpleChubby.ServerDb.Calls

/-!
# Reading back what was written

`checkAndUpdate` sends the content as a double-quoted token, `checkAndRead`
returns the column. A content comes back as it was sent if the token stands for
its own text in the row it is stored in: no NUL ends it, no quote is doubled in
it, and it is not the name of a column that holds something else.
-/

namespace SimpleChubby

open SqlText

variable (sq : Engine) (strHash : Str → UInt64)

/-- The calls that change the content of `f` or delete it where they succeed. -/
def DbOp.writes (f : Str) : DbOp → Bool
  | .checkAndDelete name _ => name == f
  | .checkAndUpdate name _ _ => name == f
  | _ => false

/-- The call is a successful update or delete of `f`. -/
def Overwrites (f : Str) (st : Store) (op : DbOp) : Prop :=
  op.writes f = true ∧ ∃ st', op.run sq strHash st = .ret (.done true) st'

/-- Once an update of `f` with `content` has succeeded, every read of `f` returns
    `content` until an update or delete of `f` succeeds. -/
def ReadsBack (st : Store) (f : Str) (n : UInt64) (content : Str) : Prop :=
  ∀ st', ServerDb.checkAndUpdate sq strHash f n content st = .ret true st' →
    ∀ st'', (ServerDb.calls sq strHash st').Reach
        (fun s op => Contained s op ∧ ¬ Overwrites sq strHash f s op) st'' →
      ∃ metaData, ServerDb.checkAndRead sq f n st'' = .ret (some (content, metaData)) st''

/-- The content stands for its own text in the row it is stored in. -/
structure Carries (content : Str) (r : FsRow) : Prop where
  nul : Char.ofNat 0 ∉ content
  quote : '"' ∉ content
  column : textValue content r = content

variable {sq : Engine} {strHash : Str → UInt64}

/-! ## What is stored -/

/-- The columns of a file that a read is about. -/
structure SameFile (content : Str) (n : UInt64) (r : FsRow) : Prop where
  content : r.content = content
  instanceNumber : UInt64.ofInt r.instanceNumber = n
  file : r.isDirectory = 0

/-- A content whose stored text is the content itself stands for its own text. -/
theorem carries_of_stored {r : FsRow} (hr : r.Sound) {content value : Str}
    (hvalue : quoted content = some value) (h : textValue value r = content) :
    Carries content r := by
  have hnul : Char.ofNat 0 ∉ content := by
    rw [← h]
    exact nul_not_mem_textValue hr (nul_not_mem_quoted hvalue)
  have hundouble : undouble content = some value := by
    rw [← cString_of_no_nul hnul]
    exact hvalue
  cases hcolumn : columnOf value with
  | none =>
    have hself : value = content := by simpa [textValue, hcolumn] using h
    subst hself
    exact ⟨hnul, (quoted_eq_self_iff.mp hvalue).1, h⟩
  | some c =>
    -- the value is a column's name, so no quote of the content was doubled
    have hquote : '"' ∉ content := fun hm =>
      quote_not_mem_column hcolumn (undouble_quote hundouble hm).1
    obtain rfl := Option.some.inj (hundouble.symm.trans (undouble_of_no_quote hquote))
    exact ⟨hnul, hquote, h⟩

theorem Carries.quoted {content : Str} {r : FsRow} (h : Carries content r) :
    SqlText.quoted content = some content := quoted_eq_self h.quote h.nul

/-! ## What other calls leave alone -/

section Frame

variable {st st' : Store} {f content : Str} {n : UInt64} {r : FsRow}

/-- The parent of a node is a directory, so a change of it passes a file by. -/
theorem ParentChange.file {parent : Str} {g : FsRow → FsRow} (h : ParentChange st parent g)
    (hrow : st.row f = some r) (hr : SameFile content n r) (hne : parent = f) :
    SameFile content n (g r) := by
  cases h with
  | none => exact hr
  | text hp hdir _ =>
    subst hne
    rw [hrow] at hp
    obtain rfl := Option.some.inj hp
    exact absurd hr.file hdir

theorem SameFile.withOwnerText (hr : SameFile content n r) (value : Str) (generation : UInt64) :
    SameFile content n (r.withOwnerText value generation) :=
  ⟨hr.content, hr.instanceNumber, hr.file⟩

theorem SameFile.withoutOwner (hr : SameFile content n r) : SameFile content n r.withoutOwner :=
  ⟨hr.content, hr.instanceNumber, hr.file⟩

/-- The row of `f` after an update of the rows of some name. -/
theorem SameFile.update (hrow : st.row f = some r) (hr : SameFile content n r) {name : Str}
    {g : FsRow → FsRow} (hname : ∀ r, (g r).name = r.name)
    (hg : name = f → SameFile content n (g r)) :
    ∃ r', (st.update name g).row f = some r' ∧ SameFile content n r' := by
  rw [Store.row_update hname, hrow]
  by_cases hf : f = name
  · rw [if_pos hf]
    exact ⟨g r, rfl, hg hf.symm⟩
  · rw [if_neg hf]
    exact ⟨r, rfl, hr⟩

/-- A contained call that is no successful update or delete of `f` leaves the
    content of `f` alone. -/
theorem CallEnds.sameFile {op : DbOp} {res : DbResult}
    (h : CallEnds strHash st op (.ret res st')) (hno : ¬ (op.writes f = true ∧ res = .done true))
    (hrow : st.row f = some r) (hr : SameFile content n r) :
    ∃ r', st'.row f = some r' ∧ SameFile content n r' := by
  cases h with
  | @created name isDir m g hnone _ hm hparent =>
    have hne : f ≠ name := by
      rintro rfl
      rw [hrow] at hnone
      cases hnone
    have hrow' : (st.create name isDir (UInt64.ofInt m + 1)).row f = some r := by
      rw [Store.row_create hnone, if_neg hne]
      exact hrow
    exact SameFile.update hrow' hr hparent.stable.name (hparent.file hrow hr)
  | @deleted name n' r' g hpresent hn hparent =>
    have hne : f ≠ name := by
      rintro rfl
      exact hno ⟨by simp [DbOp.writes], rfl⟩
    have hrow' : (st.remove name).row f = some r := by
      rw [Store.row_remove, if_neg hne]
      exact hrow
    exact SameFile.update hrow' hr hparent.stable.name (hparent.file hrow hr)
  | @updated name _ _ value _ hpresent hn hvalue =>
    refine SameFile.update hrow hr (FsRow.stable_withText _ _ _).name fun hf => ?_
    exact absurd ⟨by simp [DbOp.writes, hf], rfl⟩ hno
  | locked _ _ _ _ =>
    exact SameFile.update hrow hr (FsRow.stable_withOwnerText _ _).name
      fun _ => hr.withOwnerText _ _
  | unlocked _ _ =>
    exact SameFile.update hrow hr FsRow.stable_withoutOwner.name fun _ => hr.withoutOwner
  | _ => exact ⟨r, hrow, hr⟩

/-- The content of a file stays what it is as long as no update or delete of the
    file succeeds. -/
theorem SameFile.reach (hst : st.Sound) (hrow : st.row f = some r) (hr : SameFile content n r)
    (h : (ServerDb.calls sq strHash st).Reach
      (fun s op => Contained s op ∧ ¬ Overwrites sq strHash f s op) st') :
    st'.Sound ∧ ∃ r', st'.row f = some r' ∧ SameFile content n r' := by
  refine h.invariant
    (I := fun s => s.Sound ∧ ∃ r', s.row f = some r' ∧ SameFile content n r') ?_ ?_
  · rintro s rfl
    exact ⟨hst, r, hrow, hr⟩
  · rintro s s' op - ⟨hs, r', hrow', hr'⟩ ⟨hop, hno⟩ hstep
    obtain ⟨res, hrun, hends⟩ := hs.step_cases hop hstep
    refine ⟨hends.sound hop hs rfl, hends.sameFile (fun hwrites => hno ?_) hrow' hr'⟩
    obtain ⟨hwrites, rfl⟩ := hwrites
    exact ⟨hwrites, s', hrun⟩

end Frame

/-! ## The law -/

section Law

variable {st : Store} {f content : Str} {r : FsRow}

/-- Where the token is carried, an update of a file stores what it stands for. -/
theorem checkAndUpdate_stores (hst : st.Sound) (hrow : st.row f = some r) {value : Str}
    (hvalue : quoted content = some value) :
    ServerDb.checkAndUpdate sq strHash f (UInt64.ofInt r.instanceNumber) content st =
      .ret true (st.update f (FsRow.withText value (UInt64.ofInt r.contentGenerationNumber + 1)
        (strHash content))) := by
  have hplain : Plain f := Store.row_name hrow ▸ (hst.rows r (Store.row_mem hrow)).name
  have hends := ServerDb.checkAndUpdate_text sq strHash hst.idle hplain
    (UInt64.ofInt r.instanceNumber) hvalue
  generalize ServerDb.checkAndUpdate sq strHash f (UInt64.ofInt r.instanceNumber) content st = o
    at hends ⊢
  cases hends with
  | refused hwhy => exact absurd rfl (hwhy r hrow)
  | updated hrow' _ =>
    rw [hrow] at hrow'
    obtain rfl := Option.some.inj hrow'
    rfl

theorem row_stored (hrow : st.row f = some r) (value : Str) (generation checksum : UInt64) :
    (st.update f (FsRow.withText value generation checksum)).row f =
      some (r.withText value generation checksum) := by
  rw [Store.row_update (FsRow.stable_withText _ _ _).name, if_pos rfl, hrow]
  rfl

/-- A content that stands for its own text is read back. -/
theorem Carries.readsBack (h : Carries content r) (hst : st.Sound) (hrow : st.row f = some r)
    (hfile : r.isDirectory = 0) :
    ReadsBack sq strHash st f (UInt64.ofInt r.instanceNumber) content := by
  have hsound : r.Sound := hst.rows r (Store.row_mem hrow)
  have hplain : Plain f := Store.row_name hrow ▸ hsound.name
  intro st' hupdate st'' hreach
  rw [checkAndUpdate_stores hst hrow h.quoted] at hupdate
  cases hupdate
  have hstored : SameFile content (UInt64.ofInt r.instanceNumber)
      (r.withText content (UInt64.ofInt r.contentGenerationNumber + 1) (strHash content)) :=
    ⟨h.column, rfl, hfile⟩
  obtain ⟨-, r', hrow', hr'⟩ := SameFile.reach
    (hst.update fun r hr => hr.withText h.quoted _ _) (row_stored hrow _ _ _) hstored hreach
  refine ⟨(ServerDb.readRow r').2, ?_⟩
  rw [ServerDb.checkAndRead_row sq hplain, hrow', ← hr'.content]
  simp [Option.filter, hr'.instanceNumber, ServerDb.readRow]

/-- A content that is read back stands for its own text. -/
theorem ReadsBack.carries (hst : st.Sound) (hrow : st.row f = some r)
    (hquoted : quoted content ≠ none)
    (h : ReadsBack sq strHash st f (UInt64.ofInt r.instanceNumber) content) :
    Carries content r := by
  have hsound : r.Sound := hst.rows r (Store.row_mem hrow)
  have hplain : Plain f := Store.row_name hrow ▸ hsound.name
  obtain ⟨value, hvalue⟩ := Option.ne_none_iff_exists'.mp hquoted
  obtain ⟨metaData, hread⟩ := h _ (checkAndUpdate_stores hst hrow hvalue) _ (.init rfl)
  rw [ServerDb.checkAndRead_row sq hplain, row_stored hrow] at hread
  simp only [Option.filter, FsRow.withText, beq_self_eq_true, if_true, Option.map_some,
    ServerDb.readRow] at hread
  injection hread with hread
  exact carries_of_stored hsound hvalue (congrArg Prod.fst (Option.some.inj hread))

/-- In every store that contained calls lead to, a content sent as one token is
    read back from a file if and only if it stands for its own text there. -/
theorem readsBack_iff (h : (ServerDb.calls sq strHash Store.empty).Reach Contained st)
    (hrow : st.row f = some r) (hfile : r.isDirectory = 0) :
    (Carries content r →
      ReadsBack sq strHash st f (UInt64.ofInt r.instanceNumber) content) ∧
    (quoted content ≠ none →
      ReadsBack sq strHash st f (UInt64.ofInt r.instanceNumber) content → Carries content r) := by
  have hst : st.Sound := Store.sound_empty.reach (fun _ _ hop => hop) h
  exact ⟨fun hcarries => hcarries.readsBack hst hrow hfile,
    fun hquoted hback => hback.carries hst hrow hquoted⟩

end Law

/-- The store with the one file `/f`. -/
def oneFile : Store := Store.empty.create "/f".toList false 1

/-- The row of `/f`. -/
def oneFileRow : FsRow := Store.empty.newRow "/f".toList false 1

theorem oneFile_reach (strHash : Str → UInt64) :
    (ServerDb.calls Engine.refusing strHash Store.empty).Reach Contained oneFile := by
  refine .step (l := .checkAndCreate "/f".toList false) (.init rfl) (by decide) ?_
  rfl

/-- `hello` written to a new file is read back. -/
theorem readsBack_hello :
    ReadsBack Engine.refusing (fun _ => 0) oneFile "/f".toList 1 "hello".toList := by
  have hlaw : (Carries "hello".toList oneFileRow → _) ∧ _ :=
    readsBack_iff (oneFile_reach fun _ => 0) (f := "/f".toList) rfl rfl
  exact hlaw.1 ⟨by decide, by decide, by decide⟩

/-- `name` written to a file comes back as the name of the file. -/
theorem not_readsBack :
    ¬ ∀ st, (ServerDb.calls Engine.refusing (fun _ => 0) Store.empty).Reach Contained st →
      ∀ f r content, st.row f = some r → r.isDirectory = 0 →
        ReadsBack Engine.refusing (fun _ => 0) st f (UInt64.ofInt r.instanceNumber) content := by
  intro h
  have hback := h oneFile (oneFile_reach _) "/f".toList oneFileRow "name".toList rfl rfl
  have hst : oneFile.Sound :=
    Store.sound_empty.reach (fun _ _ hop => hop) (oneFile_reach fun _ => 0)
  have hcarries := ReadsBack.carries hst rfl (by decide) hback
  exact absurd hcarries.column (by decide)

end SimpleChubby
