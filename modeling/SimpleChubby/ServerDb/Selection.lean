import SimpleChubby.ServerDb.Calls

/-!
# The rows that a name selects

A handle carries any string as the name of its file. Spliced between quotes it
selects the row of that name only if the token stands for its own text: one that
names a column selects the rows whose name is what the column holds, a NUL cuts
the name off, and a lone quote leaves the rest of the text to SQLite.
-/

namespace SimpleChubby

open SqlText Prog

/-! ## What a call may change -/

/-- The rows of the other nodes. -/
def Store.others (st : Store) (f : Str) : List FsRow := st.fs.filter fun r => !(r.name == f)

/-- A row without the columns that change in the row of `parent` when a child is
    made or deleted. -/
def FsRow.beside (parent : Str) (r : FsRow) : FsRow :=
  if r.name = parent then
    { r with content := [], contentGenerationNumber := 0, fileContentChecksum := 0 }
  else r

/-- The rows of the other nodes, but for the content of the parent. -/
def Store.besides (st : Store) (f : Str) : List FsRow :=
  (st.others f).map (FsRow.beside (getParentName f))

/-- What the call leaves alone. -/
def DbOp.Spares (st st' : Store) : DbOp → Prop
  | .checkAndDelete f _ => st'.besides f = st.besides f
  | .checkAndUpdate f _ _ => st'.others f = st.others f
  | .testAndSetLockOwner f _ _ => st'.others f = st.others f
  | .resetLockOwner f _ => st'.others f = st.others f
  | _ => True

section Statement

variable (sq : Engine) (strHash : Str → UInt64)

/-- A call that returns `true` touches only the node it names, and the content of
    its parent where it deletes it. -/
def TouchesOnly (st : Store) (op : DbOp) : Prop :=
  ∀ st', op.run sq strHash st = .ret (.done true) st' → op.Spares st st'

/-- The store inside a transaction. -/
def Store.begun (st : Store) : Store := { st with inTransaction := true }

/-- The update with the condition `name = "f"` finds in every other row that it
    selects what it writes. Where an argument breaks the text, what SQLite makes of
    it leaves the other rows alone. -/
def Picks (f text : Str) (change : Str → FsRow → FsRow) (update : Prog Fault Store Unit)
    (st : Store) : Prop :=
  match quoted text, quoted f with
  | some value, some token => ∀ r ∈ st.fs, r.name ≠ f → nameIs sq token r = true →
      change value r = r
  | _, _ => wp update (fun _ st' => st'.inTransaction = true → st'.others f = st.others f)
      (fun _ _ => True) st.begun

/-- The deletion of a node below the root selects no other row. -/
def PicksTop (f : Str) (st : Store) : Prop :=
  match quoted f with
  | some token => ∀ r ∈ st.fs, r.name ≠ f → nameIs sq token r = false
  | none => wp (deleteNode sq f)
      (fun _ st' => st'.inTransaction = true → st'.besides f = st.besides f)
      (fun _ _ => True) st.begun

/-- The statements that delete a node in the directory of the row `par`. -/
def deleteNested (f : Str) (par : FsRow) : Prog Fault Store Unit := do
  deleteNode sq f
  ServerDb.updateParent sq strHash (getParentName f) (dirContentDelete par.content f)
    (UInt64.ofInt par.contentGenerationNumber)

/-- The deletion selects no other row, and the update of the parent finds in every
    row that it selects, other than the parent's, what it writes. -/
def PicksNested (f : Str) (par : FsRow) (st : Store) : Prop :=
  match quoted f, quoted (dirContentDelete par.content f), quoted (getParentName f) with
  | some token, some value, some parent => ∀ r ∈ st.fs, r.name ≠ f →
      nameIs sq token r = false ∧ (r.name ≠ getParentName f → nameIs sq parent r = true →
        r.withText value (UInt64.ofInt par.contentGenerationNumber + 1)
          (strHash (dirContentDelete par.content f)) = r)
  | _, _, _ => wp (deleteNested sq strHash f par)
      (fun _ st' => st'.inTransaction = true → st'.besides f = st.besides f)
      (fun _ _ => True) st.begun

/-- Where nothing refuses the call, its statements select the node it names. -/
def Selective (st : Store) : DbOp → Prop
  | .checkAndUpdate f n content => st.inTransaction = false → ∀ row,
      query sq "instance_number, content_generation_number".toList f st = .ok (some row) →
      UInt64.ofInt row.instanceNumber = n →
      Picks sq f content (fun value => FsRow.withText value
          (UInt64.ofInt row.contentGenerationNumber + 1) (strHash content))
        (updateContent sq content (UInt64.ofInt row.contentGenerationNumber + 1)
          (strHash content) f) st
  | .testAndSetLockOwner f n clientId => st.inTransaction = false → ∀ row,
      query sq "instance_number, lock_owner, lock_generation_number".toList f st = .ok (some row) →
      UInt64.ofInt row.instanceNumber = n → row.lockOwner = noOwner →
      Picks sq f clientId (fun value => FsRow.withOwnerText value
          (UInt64.ofInt row.lockGenerationNumber + 1))
        (updateLockOwner sq clientId (UInt64.ofInt row.lockGenerationNumber + 1) f) st
  | .resetLockOwner f n => st.inTransaction = false → ∀ row,
      query sq "instance_number".toList f st = .ok (some row) →
      UInt64.ofInt row.instanceNumber = n →
      Picks sq f noOwner (fun _ => FsRow.withoutOwner) (clearLockOwner sq noOwner f) st
  | .checkAndDelete f n => st.inTransaction = false → ∀ row,
      query sq "lock_owner, instance_number, is_directory, content".toList f st = .ok (some row) →
      UInt64.ofInt row.instanceNumber = n → row.lockOwner = noOwner →
      ¬ (row.isDirectory ≠ 0 ∧ row.content ≠ []) →
      (getParentName f = root → PicksTop sq f st) ∧
        (getParentName f ≠ root → ∀ par,
          query sq ServerDb.parentColumns (getParentName f) st = .ok (some par) →
          par.isDirectory = 1 → PicksNested sq strHash f par st)
  | _ => True

end Statement

/-! ## Statements and rows -/

/-- A list with some elements dropped and the others changed is what it was just
    when none was dropped and none changed. -/
theorem map_filter_eq_map {α β : Type} {l : List α} {q : α → Bool} {g g' : α → β} :
    (l.filter q).map g' = l.map g ↔ ∀ a ∈ l, q a = true ∧ g' a = g a := by
  constructor
  · intro h a ha
    have hlen : (l.filter q).length = l.length := by
      simpa using congrArg List.length h
    have hall := List.length_filter_eq_length_iff.mp hlen
    rw [List.filter_eq_self.mpr hall] at h
    exact ⟨hall a ha, List.map_inj_left.mp h a ha⟩
  · intro h
    rw [List.filter_eq_self.mpr fun a ha => (h a ha).1]
    exact List.map_inj_left.mpr fun a ha => (h a ha).2

section Rows

variable {st : Store} {f : Str} {p q : FsRow → Bool} {g : FsRow → FsRow}

theorem Store.mem_others {r : FsRow} : r ∈ st.others f ↔ r ∈ st.fs ∧ r.name ≠ f := by
  simp [Store.others]

/-- The other rows after an update. -/
theorem Store.others_updateWhere (hname : ∀ r, (g r).name = r.name) :
    (st.updateWhere p g).others f = (st.others f).map fun r => if p r then g r else r := by
  unfold Store.others Store.updateWhere
  rw [List.filter_map]
  congr 1
  apply List.filter_congr
  intro r _
  simp only [Function.comp_apply]
  split_ifs
  · rw [hname]
  · rfl

/-- The other rows after a deletion. -/
theorem Store.others_filter :
    Store.others { st with fs := st.fs.filter q } f = (st.others f).filter q :=
  List.filter_comm _ _ _

/-- An update leaves the other rows alone just when it finds in them what it writes. -/
theorem others_updateWhere_iff (hname : ∀ r, (g r).name = r.name) :
    (st.updateWhere p g).others f = st.others f ↔
      ∀ r ∈ st.fs, r.name ≠ f → p r = true → g r = r := by
  rw [Store.others_updateWhere hname]
  conv_lhs => rw [← List.map_id (st.others f)]
  rw [List.map_map, List.map_inj_left]
  constructor
  · intro h r hr hne hp
    have hfixed := h r (Store.mem_others.mpr ⟨hr, hne⟩)
    simpa [hp] using hfixed
  · intro h r hr
    obtain ⟨hr, hne⟩ := Store.mem_others.mp hr
    simp only [Function.comp_apply, id_eq]
    split_ifs with hp
    · exact h r hr hne hp
    · rfl

/-- A deletion leaves the other rows alone just when it selects none of them. -/
theorem besides_filter_iff :
    Store.besides { st with fs := st.fs.filter q } f = st.besides f ↔
      ∀ r ∈ st.fs, r.name ≠ f → q r = true := by
  unfold Store.besides
  rw [Store.others_filter, map_filter_eq_map]
  constructor
  · intro h r hr hne
    exact (h r (Store.mem_others.mpr ⟨hr, hne⟩)).1
  · intro h r hr
    obtain ⟨hr, hne⟩ := Store.mem_others.mp hr
    exact ⟨h r hr hne, rfl⟩

theorem beside_eq_iff {parent : Str} {r r' : FsRow} (hname : r'.name = r.name)
    (hne : r.name ≠ parent) : r'.beside parent = r.beside parent ↔ r' = r := by
  unfold FsRow.beside
  rw [if_neg hne, if_neg (hname ▸ hne)]

/-- A deletion followed by an update of the parent's content. -/
theorem besides_update_iff {value : Str} {generation checksum : UInt64} :
    (Store.updateWhere { st with fs := st.fs.filter q } p
        (FsRow.withText value generation checksum)).besides f = st.besides f ↔
      ∀ r ∈ st.fs, r.name ≠ f → q r = true ∧ (r.name ≠ getParentName f → p r = true →
        r.withText value generation checksum = r) := by
  unfold Store.besides
  rw [Store.others_updateWhere (FsRow.stable_withText _ _ _).name, Store.others_filter,
    List.map_map, map_filter_eq_map]
  have hsame : ∀ r : FsRow,
      (FsRow.beside (getParentName f) ∘ fun r =>
        if p r then r.withText value generation checksum else r) r =
          r.beside (getParentName f) ↔
        (r.name ≠ getParentName f → p r = true → r.withText value generation checksum = r) := by
    intro r
    simp only [Function.comp_apply]
    by_cases hp : p r = true
    · rw [if_pos hp]
      by_cases hparent : r.name = getParentName f
      · have hbeside : (r.withText value generation checksum).beside (getParentName f) =
            r.beside (getParentName f) := by
          simp [FsRow.beside, FsRow.withText, hparent]
        exact iff_of_true hbeside fun hne => absurd hparent hne
      · have hiff : (r.withText value generation checksum).beside (getParentName f) =
            r.beside (getParentName f) ↔ r.withText value generation checksum = r :=
          beside_eq_iff rfl hparent
        rw [hiff]
        exact ⟨fun h _ _ => h, fun h => h hparent hp⟩
    · rw [if_neg hp]
      exact iff_of_true rfl fun _ hcon => absurd hcon hp
  constructor
  · intro h r hr hne
    obtain ⟨hq, hbeside⟩ := h r (Store.mem_others.mpr ⟨hr, hne⟩)
    exact ⟨hq, (hsame r).mp hbeside⟩
  · intro h r hr
    obtain ⟨hr, hne⟩ := Store.mem_others.mp hr
    obtain ⟨hq, hkept⟩ := h r hr hne
    exact ⟨hq, (hsame r).mpr hkept⟩

end Rows

section Statements

variable {sq : Engine} {strHash : Str → UInt64} {st : Store} {f : Str}

theorem wp_query {columns : Str} {Q : Option FsRow → Store → Prop} {E : Fault → Store → Prop} :
    wp (selectByName sq columns f) Q E st ↔
      match query sq columns f st with
      | .ok row => Q row st
      | .error e => E e st := by
  unfold wp
  rw [selectByName_query]
  cases query sq columns f st with
  | ok row => rfl
  | error e => rfl

/-- Statements between `BEGIN` and `COMMIT`. -/
theorem wp_transaction {statement : Prog Fault Store Unit} {P : Store → Prop} :
    wp (do sqlBegin; statement; sqlCommit; return true)
        (fun done st' => done = true → P st') (fun _ _ => True) st ↔
      (st.inTransaction = false → wp statement
        (fun _ st' => st'.inTransaction = true → P { st' with inTransaction := false })
        (fun _ _ => True) st.begun) := by
  simp only [wp_bind]
  by_cases hidle : st.inTransaction = false
  · rw [wp_sqlBegin hidle, wp_bind]
    show wp statement _ _ st.begun ↔ _
    unfold wp
    cases statement st.begun with
    | stop e st' => exact ⟨fun _ _ => trivial, fun _ => trivial⟩
    | ret a st' =>
      show wp (sqlCommit >>= fun _ => pure true) _ _ st' ↔ _
      rw [wp_bind]
      by_cases htx : st'.inTransaction = true
      · rw [wp_sqlCommit htx]
        exact ⟨fun h _ _ => h rfl, fun h _ => h hidle htx⟩
      · refine iff_of_true ?_ fun _ hcon => absurd hcon htx
        unfold wp
        rw [show sqlCommit st' = .stop .exception st' from if_neg htx]
        trivial
  · simp [wp, sqlBegin, hidle]

/-- What a call returns `true` from. -/
theorem wp_returns_true {m : Prog Fault Store Bool} {P : Store → Prop} :
    (∀ st', m st = .ret true st' → P st') ↔
      wp m (fun done st' => done = true → P st') (fun _ _ => True) st := by
  unfold wp
  cases m st with
  | stop e st' => simp
  | ret done st' =>
    constructor
    · rintro h rfl
      exact h st' rfl
    · intro h st'' heq
      injection heq with hdone hst
      subst hst
      exact h hdone

/-- An update spares the other rows just when it picks its row. -/
theorem picks_iff {text : Str} {change : Str → FsRow → FsRow} {update : Prog Fault Store Unit}
    (hname : ∀ value r, (change value r).name = r.name)
    (hupdate : ∀ value token, quoted text = some value → quoted f = some token →
      ∀ st', update st' = .ret () (st'.updateWhere (nameIs sq token) (change value))) :
    wp update (fun _ st' => st'.inTransaction = true →
        Store.others { st' with inTransaction := false } f = st.others f)
      (fun _ _ => True) st.begun ↔ Picks sq f text change update st := by
  unfold Picks
  split
  · next value token hvalue htoken =>
    have hrun := hupdate value token hvalue htoken st.begun
    unfold wp
    rw [hrun]
    have hiff : (st.updateWhere (nameIs sq token) (change value)).others f = st.others f ↔ _ :=
      others_updateWhere_iff (hname value)
    refine Iff.trans ?_ hiff
    exact ⟨fun h => h rfl, fun h _ => h⟩
  · exact Iff.rfl

/-- What is to be shown of a method that looks a node up and checks its number, where
    nothing is asked of a call that is refused. -/
theorem wp_checked {m : Prog Fault Store Bool} {body : FsRow → Prog Fault Store Bool} {n : UInt64}
    {found : Except Fault (Option FsRow)} {Q : Bool → Store → Prop} {E : Fault → Store → Prop}
    (hm : m st = checked st false (fun row => body row st) n found) (hno : Q false st)
    (hstop : ∀ e, E e st) :
    wp m Q E st ↔ ∀ row, found = .ok (some row) → UInt64.ofInt row.instanceNumber = n →
      wp (body row) Q E st := by
  rcases found with e | _ | row
  · refine iff_of_true ?_ nofun
    unfold wp
    rw [hm]
    exact hstop e
  · refine iff_of_true ?_ nofun
    unfold wp
    rw [hm]
    exact hno
  · by_cases hn : UInt64.ofInt row.instanceNumber = n
    · have hbody : m st = body row st := hm.trans (if_pos hn)
      have hsame : wp m Q E st ↔ wp (body row) Q E st := by
        unfold wp
        rw [hbody]
      rw [hsame]
      constructor
      · intro h row' hrow _
        obtain rfl := Option.some.inj (Except.ok.inj hrow)
        exact h
      · intro h
        exact h row rfl hn
    · have hrefused : m st = .ret false st := hm.trans (if_neg hn)
      refine iff_of_true ?_ fun row' hrow hn' => ?_
      · unfold wp
        rw [hrefused]
        exact hno
      · obtain rfl := Option.some.inj (Except.ok.inj hrow)
        exact absurd hn' hn

/-- What such a method returns `true` from. -/
theorem wp_checked_true {m : Prog Fault Store Bool} {body : FsRow → Prog Fault Store Bool}
    {n : UInt64} {found : Except Fault (Option FsRow)} {P : Store → Prop}
    (hm : m st = checked st false (fun row => body row st) n found) :
    wp m (fun done st' => done = true → P st') (fun _ _ => True) st ↔
      ∀ row, found = .ok (some row) → UInt64.ofInt row.instanceNumber = n →
        wp (body row) (fun done st' => done = true → P st') (fun _ _ => True) st :=
  wp_checked hm nofun fun _ => trivial

theorem map_done_iff {o : Outcome Fault Store Bool} {st' : Store} :
    o.map DbResult.done = .ret (.done true) st' ↔ o = .ret true st' := by
  have hret : Outcome.ret (DbResult.done true) st' =
      (.ret true st' : Outcome Fault Store Bool).map DbResult.done := rfl
  rw [hret]
  exact Outcome.map_inj fun _ _ => DbResult.done.inj

end Statements

/-! ## The calls -/

section Calls

variable {sq : Engine} {strHash : Str → UInt64} {st : Store} {f : Str}

theorem picks_updateContent (content : Str) (generation checksum : UInt64) :
    wp (updateContent sq content generation checksum f)
        (fun _ st' => st'.inTransaction = true →
          Store.others { st' with inTransaction := false } f = st.others f)
        (fun _ _ => True) st.begun ↔
      Picks sq f content (fun value => FsRow.withText value generation checksum)
        (updateContent sq content generation checksum f) st := by
  refine picks_iff (fun _ _ => rfl) fun value token hvalue htoken st' => ?_
  unfold updateContent
  rw [hvalue, htoken]
  rfl

theorem picks_updateLockOwner (owner : Str) (generation : UInt64) :
    wp (updateLockOwner sq owner generation f)
        (fun _ st' => st'.inTransaction = true →
          Store.others { st' with inTransaction := false } f = st.others f)
        (fun _ _ => True) st.begun ↔
      Picks sq f owner (fun value => FsRow.withOwnerText value generation)
        (updateLockOwner sq owner generation f) st := by
  refine picks_iff (fun _ _ => rfl) fun value token hvalue htoken st' => ?_
  unfold updateLockOwner
  rw [hvalue, htoken]
  rfl

theorem picks_clearLockOwner :
    wp (clearLockOwner sq noOwner f)
        (fun _ st' => st'.inTransaction = true →
          Store.others { st' with inTransaction := false } f = st.others f)
        (fun _ _ => True) st.begun ↔
      Picks sq f noOwner (fun _ => FsRow.withoutOwner) (clearLockOwner sq noOwner f) st := by
  refine picks_iff (fun _ _ => rfl) fun value token hvalue htoken st' => ?_
  obtain rfl : noOwner = value := Option.some.inj hvalue
  unfold clearLockOwner
  rw [hvalue, htoken]
  rfl

theorem touchesOnly_checkAndUpdate (n : UInt64) (content : Str) :
    TouchesOnly sq strHash st (.checkAndUpdate f n content) ↔
      Selective sq strHash st (.checkAndUpdate f n content) := by
  simp only [TouchesOnly, Selective, DbOp.run, DbOp.Spares, map_done_iff]
  rw [wp_returns_true, wp_checked_true (checkAndUpdate_checked sq strHash n content)]
  simp only [updateFound, wp_transaction, picks_updateContent]
  exact ⟨fun h hidle row hrow hn => h row hrow hn hidle,
    fun h row hrow hn hidle => h hidle row hrow hn⟩

theorem touchesOnly_testAndSetLockOwner (n : UInt64) (clientId : Str) :
    TouchesOnly sq strHash st (.testAndSetLockOwner f n clientId) ↔
      Selective sq strHash st (.testAndSetLockOwner f n clientId) := by
  simp only [TouchesOnly, Selective, DbOp.run, DbOp.Spares, map_done_iff]
  rw [wp_returns_true, wp_checked_true (testAndSetLockOwner_checked sq n clientId)]
  simp only [lockFound, wp_ite, wp_transaction, picks_updateLockOwner]
  constructor
  · intro h hidle row hrow hn hfree
    have hrow' := h row hrow hn
    rw [if_neg (not_not.mpr hfree)] at hrow'
    exact hrow' hidle
  · intro h row hrow hn
    split_ifs with hheld
    · exact Bool.false_ne_true.elim
    · exact fun hidle => h hidle row hrow hn (not_not.mp hheld)

theorem touchesOnly_resetLockOwner (n : UInt64) :
    TouchesOnly sq strHash st (.resetLockOwner f n) ↔
      Selective sq strHash st (.resetLockOwner f n) := by
  simp only [TouchesOnly, Selective, DbOp.run, DbOp.Spares, map_done_iff]
  rw [wp_returns_true, wp_checked_true (resetLockOwner_checked sq n)]
  simp only [unlockFound, wp_transaction, picks_clearLockOwner]
  exact ⟨fun h hidle row hrow hn => h row hrow hn hidle,
    fun h row hrow hn hidle => h hidle row hrow hn⟩

theorem picksTop_iff :
    wp (deleteNode sq f)
        (fun _ st' => st'.inTransaction = true →
          Store.besides { st' with inTransaction := false } f = st.besides f)
        (fun _ _ => True) st.begun ↔ PicksTop sq f st := by
  unfold PicksTop
  split
  · next token htoken =>
    have hrun : deleteNode sq f st.begun =
        .ret () { st.begun with fs := st.fs.filter fun row => !nameIs sq token row } := by
      unfold deleteNode
      rw [htoken]
      rfl
    unfold wp
    rw [hrun]
    have hiff : Store.besides { st with fs := st.fs.filter fun row => !nameIs sq token row } f =
        st.besides f ↔ _ := besides_filter_iff
    simp only [Bool.not_eq_true'] at hiff
    exact ⟨fun h => hiff.mp (h rfl), fun h _ => hiff.mpr h⟩
  · exact Iff.rfl

theorem picksNested_iff (par : FsRow) :
    wp (deleteNested sq strHash f par)
        (fun _ st' => st'.inTransaction = true →
          Store.besides { st' with inTransaction := false } f = st.besides f)
        (fun _ _ => True) st.begun ↔ PicksNested sq strHash f par st := by
  unfold PicksNested
  split
  · next token value parent htoken hvalue hparent =>
    have hrun : deleteNested sq strHash f par st.begun =
        .ret () (Store.updateWhere
          { st.begun with fs := st.fs.filter fun row => !nameIs sq token row }
          (nameIs sq parent) (FsRow.withText value (UInt64.ofInt par.contentGenerationNumber + 1)
            (strHash (dirContentDelete par.content f)))) := by
      have hdelete : deleteNode sq f st.begun =
          .ret () { st.begun with fs := st.fs.filter fun row => !nameIs sq token row } := by
        unfold deleteNode
        rw [htoken]
        rfl
      unfold deleteNested
      rw [bind_of_ret hdelete]
      unfold ServerDb.updateParent updateContent
      rw [hvalue, hparent]
      rfl
    unfold wp
    rw [hrun]
    have hiff : (Store.updateWhere { st with fs := st.fs.filter fun row => !nameIs sq token row }
        (nameIs sq parent) (FsRow.withText value (UInt64.ofInt par.contentGenerationNumber + 1)
          (strHash (dirContentDelete par.content f)))).besides f = st.besides f ↔ _ :=
      besides_update_iff
    simp only [Bool.not_eq_true'] at hiff
    exact ⟨fun h => hiff.mp (h rfl), fun h _ => hiff.mpr h⟩
  · exact Iff.rfl

theorem wp_removeTop {P : Store → Prop} :
    wp (do ServerDb.removeNode sq strHash f none; return true)
        (fun done st' => done = true → P st') (fun _ _ => True) st ↔
      (st.inTransaction = false → wp (deleteNode sq f)
        (fun _ st' => st'.inTransaction = true → P { st' with inTransaction := false })
        (fun _ _ => True) st.begun) := by
  rw [← wp_transaction]
  unfold ServerDb.removeNode
  simp only [bind_bind]

theorem wp_removeNested (par : FsRow) {P : Store → Prop} :
    wp (do
        ServerDb.removeNode sq strHash f
          (some ⟨par.content, UInt64.ofInt par.contentGenerationNumber⟩)
        return true)
        (fun done st' => done = true → P st') (fun _ _ => True) st ↔
      (st.inTransaction = false → wp (deleteNested sq strHash f par)
        (fun _ st' => st'.inTransaction = true → P { st' with inTransaction := false })
        (fun _ _ => True) st.begun) := by
  rw [← wp_transaction]
  unfold ServerDb.removeNode deleteNested
  simp only [bind_bind]

/-- What is to be shown of a deletion whose node is free and no directory with children. -/
theorem wp_deleteFound {row : FsRow} :
    wp (deleteFound sq strHash f row)
        (fun done st' => done = true → st'.besides f = st.besides f) (fun _ _ => True) st ↔
      (row.lockOwner = noOwner → ¬ (row.isDirectory ≠ 0 ∧ row.content ≠ []) →
        st.inTransaction = false → (getParentName f = root → PicksTop sq f st) ∧
          (getParentName f ≠ root → ∀ par,
            query sq ServerDb.parentColumns (getParentName f) st = .ok (some par) →
            par.isDirectory = 1 → PicksNested sq strHash f par st)) := by
  unfold deleteFound
  rw [wp_ite, wp_ite, wp_ite]
  split_ifs with howner hdir hroot
  · exact iff_of_true nofun fun hfree => absurd hfree howner
  · exact iff_of_true nofun fun _ hempty => absurd hdir hempty
  · rw [wp_removeTop, picksTop_iff]
    exact ⟨fun h _ _ hidle => ⟨fun _ => h hidle, fun hne => absurd hroot hne⟩,
      fun h hidle => (h (not_not.mp howner) hdir hidle).1 hroot⟩
  · rw [wp_bind, wp_query]
    cases hpar : query sq ServerDb.parentColumns (getParentName f) st with
    | error e => exact iff_of_true trivial fun _ _ _ => ⟨fun h => absurd h hroot, fun _ => nofun⟩
    | ok found =>
      cases found with
      | none => exact iff_of_true trivial fun _ _ _ => ⟨fun h => absurd h hroot, fun _ => nofun⟩
      | some par =>
        show wp (if par.isDirectory ≠ 1 then _ else _) _ _ st ↔ _
        rw [wp_ite]
        split_ifs with hpdir
        · refine iff_of_true trivial fun _ _ _ =>
            ⟨fun h => absurd h hroot, fun _ par' hpar' hd => ?_⟩
          obtain rfl := Option.some.inj (Except.ok.inj hpar')
          exact absurd hd hpdir
        · rw [wp_removeNested, picksNested_iff]
          constructor
          · intro h _ _ hidle
            refine ⟨fun hcon => absurd hcon hroot, fun _ par' hpar' _ => ?_⟩
            obtain rfl := Option.some.inj (Except.ok.inj hpar')
            exact h hidle
          · intro h hidle
            exact (h (not_not.mp howner) hdir hidle).2 hroot par rfl (not_not.mp hpdir)

theorem touchesOnly_checkAndDelete (n : UInt64) :
    TouchesOnly sq strHash st (.checkAndDelete f n) ↔
      Selective sq strHash st (.checkAndDelete f n) := by
  simp only [TouchesOnly, Selective, DbOp.run, DbOp.Spares, map_done_iff]
  rw [wp_returns_true, wp_checked_true (checkAndDelete_checked sq strHash n)]
  simp only [wp_deleteFound]
  exact ⟨fun h hidle row hrow hn hfree hempty => h row hrow hn hfree hempty hidle,
    fun h row hrow hn hfree hempty hidle => h hidle row hrow hn hfree hempty⟩

end Calls

/-- On every store, for every name a handle can carry and every engine: a call that
    returns `true` touches only the node it names if and only if its statements
    select that node. -/
theorem touchesOnly_iff (sq : Engine) (strHash : Str → UInt64) (st : Store) (op : DbOp) :
    TouchesOnly sq strHash st op ↔ Selective sq strHash st op := by
  cases op with
  | checkAndDelete f n => exact touchesOnly_checkAndDelete n
  | checkAndUpdate f n content => exact touchesOnly_checkAndUpdate n content
  | testAndSetLockOwner f n clientId => exact touchesOnly_testAndSetLockOwner n clientId
  | resetLockOwner f n => exact touchesOnly_resetLockOwner n
  | _ => exact iff_of_true (fun _ _ => trivial) trivial

/-! ## Names that stand for themselves -/

section Named

variable {sq : Engine} {strHash : Str → UInt64} {st : Store} {f : Str}

/-- A name that stands for itself selects no other row. -/
theorem nameIs_other (h : Plain f) {r : FsRow} (hne : r.name ≠ f) : nameIs sq f r = false := by
  rw [nameIs_plain h]
  exact beq_eq_false_iff_ne.mpr hne

theorem picks_plain (h : Plain f) {text : Str} (htext : quoted text ≠ none)
    (change : Str → FsRow → FsRow) (update : Prog Fault Store Unit) :
    Picks sq f text change update st := by
  obtain ⟨value, hvalue⟩ := Option.ne_none_iff_exists'.mp htext
  unfold Picks
  rw [hvalue, h.quoted]
  intro r _ hne hselected
  rw [nameIs_other h hne] at hselected
  cases hselected

/-- A call whose strings stay inside their tokens and whose names stand for
    themselves touches only the node it names. -/
theorem Contained.touchesOnly {op : DbOp} (h : Contained st op) : TouchesOnly sq strHash st op := by
  rw [touchesOnly_iff]
  cases op with
  | checkAndUpdate f n content => exact fun _ row _ _ => picks_plain h.1 h.2 _ _
  | testAndSetLockOwner f n clientId => exact fun _ row _ _ _ => picks_plain h.1 h.2 _ _
  | resetLockOwner f n => exact fun _ row _ _ => picks_plain h (by decide) _ _
  | checkAndDelete f n =>
    obtain ⟨hname, hparent, hcontent⟩ := h
    intro _ row _ _ _ _
    constructor
    · intro _
      unfold PicksTop
      rw [hname.quoted]
      exact fun r _ hne => nameIs_other hname hne
    · intro _ par hpar hdir
      rw [query_plain sq hparent] at hpar
      obtain ⟨value, hvalue⟩ := Option.ne_none_iff_exists'.mp
        (hcontent par (Except.ok.inj hpar) (by omega))
      unfold PicksNested
      rw [hname.quoted, hvalue, hparent.quoted]
      intro r _ hne
      refine ⟨nameIs_other hname hne, fun hother hselected => ?_⟩
      rw [nameIs_other hparent hother] at hselected
      cases hselected
  | _ => trivial

end Named

/-- The store with the two files `/a` and `/b`. -/
def twoFiles : Store := (Store.empty.create "/a".toList false 1).create "/b".toList false 2

theorem twoFiles_reach (strHash : Str → UInt64) :
    (ServerDb.calls .refusing strHash .empty).Reach Contained twoFiles := by
  have hone : (ServerDb.calls .refusing strHash .empty).Reach Contained
      (Store.empty.create "/a".toList false 1) :=
    .step (l := .checkAndCreate "/a".toList false) (.init rfl) (by decide) rfl
  exact hone.step (l := .checkAndCreate "/b".toList false) (by decide) rfl

/-- An update of the file called `name` overwrites every file. -/
theorem not_touchesOnly :
    ¬ ∀ st, (ServerDb.calls .refusing (fun _ => 0) .empty).Reach Contained st →
      ∀ op, TouchesOnly .refusing (fun _ => 0) st op := by
  intro h
  have hrun : ∃ st', (DbOp.checkAndUpdate "name".toList 1 "x".toList).run .refusing (fun _ => 0)
      twoFiles = .ret (.done true) st' ∧
        st'.others "name".toList ≠ twoFiles.others "name".toList := ⟨_, rfl, by decide⟩
  obtain ⟨st', hst', hother⟩ := hrun
  exact hother (h twoFiles (twoFiles_reach _) (.checkAndUpdate "name".toList 1 "x".toList) st' hst')

end SimpleChubby
