import Mathlib.Data.List.Nodup
import Mathlib.Data.List.Basic
import SimpleChubby.ServerDb.Paxos

/-!
# `ServerDB` on well-formed stores

On names that `checkName` accepts and texts without a double quote every
statement is what its format string says, so each method is described by the
rows it reads and one named update of the store. A relation for each method
lists its cases with their guards; later modules argue by cases on it.
-/

namespace SimpleChubby

open SqlText

/-! ## Tokens that are carried as they stand -/

/-- A token that SQLite takes for its own text. -/
structure Plain (token : Str) : Prop where
  quoted : SqlText.quoted token = some token
  column : columnOf token = none

/-- No column has a name that starts with a slash. -/
theorem columnOf_slash (rest : Str) : columnOf ('/' :: rest) = none := by
  simp [columnOf, columnNames, sameIdent]

theorem plain_of_chars {token : Str} (hhead : token.head? = some '/')
    (hchars : ∀ c ∈ token, checkChar c = true) : Plain token := by
  have hquote : '"' ∉ token := by
    intro hm
    exact absurd (hchars _ hm) (by decide)
  have hnul : Char.ofNat 0 ∉ token := by
    intro hm
    exact absurd (hchars _ hm) (by decide)
  refine ⟨quoted_eq_self hquote hnul, ?_⟩
  cases token with
  | nil => cases hhead
  | cons c rest =>
    obtain rfl := Option.some.inj hhead
    exact columnOf_slash rest

theorem NameOk.plain {key : Str} (h : NameOk key) : Plain key :=
  plain_of_chars h.head h.chars

theorem NameOk.plainParent {key : Str} (h : NameOk key) : Plain (getParentName key) :=
  plain_of_chars (getParentName_head h) (getParentName_chars h)

theorem nameIs_plain {sq : Engine} {token : Str} (h : Plain token) :
    nameIs sq token = fun row => row.name == token := by
  funext row
  simp [nameIs, h.column]

/-! ## Rows and updates -/

namespace Store

variable (st : Store)

/-- The row of a node. -/
def row (name : Str) : Option FsRow := st.fs.find? fun r => r.name == name

/-- The row `insertNode` adds. -/
def newRow (name : Str) (isDir : Bool) (n : UInt64) : FsRow where
  rowid := (st.fs.getLast?.map FsRow.rowid).getD 0 + 1
  name := name
  content := []
  lockOwner := noOwner
  instanceNumber := printfD n
  contentGenerationNumber := 0
  lockGenerationNumber := 0
  fileContentChecksum := 0
  isDirectory := if isDir then 1 else 0

/-- A new node with the instance number `n`. -/
def create (name : Str) (isDir : Bool) (n : UInt64) : Store :=
  { st with
    fs := st.fs ++ [st.newRow name isDir n]
    maxInstanceNumber := st.maxInstanceNumber.map fun _ => printfD n }

/-- A node removed. -/
def remove (name : Str) : Store := { st with fs := st.fs.filter fun r => !(r.name == name) }

/-- The row of a node changed. -/
def update (name : Str) (f : FsRow → FsRow) : Store := st.updateWhere (fun r => r.name == name) f

end Store

/-- The content columns of a row set to a value `updateContent` is given. -/
def FsRow.withContent (content : Str) (generation checksum : UInt64) (r : FsRow) : FsRow :=
  { r with
    content := textValue (cString content) r
    contentGenerationNumber := printfD generation
    fileContentChecksum := printfD checksum }

/-- The content columns of a row set to what becomes of the quoted token `value`. -/
def FsRow.withText (value : Str) (generation checksum : UInt64) (r : FsRow) : FsRow :=
  { r with
    content := textValue value r
    contentGenerationNumber := printfD generation
    fileContentChecksum := printfD checksum }

/-- The lock columns of a row set to what becomes of the quoted token `value`. -/
def FsRow.withOwnerText (value : Str) (generation : UInt64) (r : FsRow) : FsRow :=
  { r with
    lockOwner := textValue value r
    lockGenerationNumber := printfD generation }

/-- The lock columns of a row set to what `testAndSetLockOwner` writes. -/
def FsRow.withOwner (owner : Str) (generation : UInt64) (r : FsRow) : FsRow :=
  { r with
    lockOwner := textValue (cString owner) r
    lockGenerationNumber := printfD generation }

/-- The lock owner of a row reset. -/
def FsRow.withoutOwner (r : FsRow) : FsRow := { r with lockOwner := noOwner }

/-- A change of a row that leaves it the row of the same node. -/
structure FsRow.Stable (f : FsRow → FsRow) : Prop where
  name : ∀ r, (f r).name = r.name
  instanceNumber : ∀ r, (f r).instanceNumber = r.instanceNumber
  isDirectory : ∀ r, (f r).isDirectory = r.isDirectory

theorem FsRow.stable_id : FsRow.Stable fun r => r := ⟨fun _ => rfl, fun _ => rfl, fun _ => rfl⟩

theorem FsRow.stable_withText (value : Str) (generation checksum : UInt64) :
    FsRow.Stable (FsRow.withText value generation checksum) :=
  ⟨fun _ => rfl, fun _ => rfl, fun _ => rfl⟩

theorem FsRow.stable_withContent (content : Str) (generation checksum : UInt64) :
    FsRow.Stable (FsRow.withContent content generation checksum) :=
  ⟨fun _ => rfl, fun _ => rfl, fun _ => rfl⟩

theorem FsRow.stable_withOwnerText (value : Str) (generation : UInt64) :
    FsRow.Stable (FsRow.withOwnerText value generation) :=
  ⟨fun _ => rfl, fun _ => rfl, fun _ => rfl⟩

theorem FsRow.stable_withOwner (owner : Str) (generation : UInt64) :
    FsRow.Stable (FsRow.withOwner owner generation) :=
  ⟨fun _ => rfl, fun _ => rfl, fun _ => rfl⟩

theorem FsRow.stable_withoutOwner : FsRow.Stable FsRow.withoutOwner :=
  ⟨fun _ => rfl, fun _ => rfl, fun _ => rfl⟩

section Lookup

variable {st : Store} {name name' : Str}

theorem Store.row_name {r : FsRow} (h : st.row name = some r) : r.name = name := by
  have hfound := List.find?_some h
  simpa using hfound

theorem Store.row_mem {r : FsRow} (h : st.row name = some r) : r ∈ st.fs :=
  List.mem_of_find?_eq_some h

/-- With distinct names, the row of a node is the one that has its name. -/
theorem Store.row_eq (hnodup : (st.fs.map FsRow.name).Nodup) {r : FsRow} (hr : r ∈ st.fs) :
    st.row r.name = some r := by
  cases hrow : st.row r.name with
  | none =>
    have hnone := List.find?_eq_none.mp hrow r hr
    simp at hnone
  | some r' =>
    have hname := Store.row_name hrow
    rw [List.inj_on_of_nodup_map hnodup (Store.row_mem hrow) hr hname]

theorem Store.row_create {isDir : Bool} {n : UInt64} (h : st.row name = none) :
    (st.create name isDir n).row name' =
      if name' = name then some (st.newRow name isDir n) else st.row name' := by
  unfold Store.row Store.create at *
  rw [List.find?_append]
  by_cases hname : name' = name
  · subst hname
    rw [h]
    simp [newRow]
  · rw [if_neg hname]
    simp [newRow, Ne.symm hname]

theorem Store.row_remove :
    (st.remove name).row name' = if name' = name then none else st.row name' := by
  unfold Store.row Store.remove
  rw [List.find?_filter]
  split_ifs with hname
  · subst hname
    simp
  · congr 1
    funext r
    by_cases hr : r.name = name'
    · simp [hr, hname]
    · simp [hr]

theorem Store.row_update {f : FsRow → FsRow} (hf : ∀ r, (f r).name = r.name) :
    (st.update name f).row name' = if name' = name then (st.row name').map f else st.row name' := by
  unfold Store.row Store.update Store.updateWhere
  simp only [List.find?_map]
  have hsame : ((fun r : FsRow => r.name == name') ∘
      fun r => if (r.name == name) = true then f r else r) = fun r => r.name == name' := by
    funext r
    simp only [Function.comp_apply]
    split_ifs
    · rw [hf]
    · rfl
  rw [hsame]
  cases hrow : st.fs.find? (fun r => r.name == name') with
  | none => simp
  | some r =>
    have hr := List.find?_some hrow
    simp only [beq_iff_eq] at hr
    simp only [Option.map_some, beq_iff_eq, hr]
    split_ifs <;> rfl

end Lookup

/-! ## Statements -/

section Statements

variable {sq : Engine} {st : Store} {token : Str} {E : Fault → Store → Prop}

open Prog

theorem wp_selectByName {columns : Str} {Q : Option FsRow → Store → Prop} (h : Plain token) :
    wp (selectByName sq columns token) Q E st ↔ Q (st.row token) st := by
  unfold wp selectByName
  simp only [h.quoted, nameIs_plain h]
  exact Iff.rfl

variable {Q : Unit → Store → Prop}

theorem wp_sqlBegin (h : st.inTransaction = false) :
    wp sqlBegin Q E st ↔ Q () { st with inTransaction := true } := by
  unfold wp sqlBegin
  simp [h]

theorem wp_sqlCommit (h : st.inTransaction = true) :
    wp sqlCommit Q E st ↔ Q () { st with inTransaction := false } := by
  unfold wp sqlCommit
  simp [h]

theorem wp_insertNode {n : UInt64} {isDir : Bool} (h : Plain token) (hrow : st.row token = none) :
    wp (insertNode sq token n isDir) Q E st ↔
      Q () { st with fs := st.fs ++ [st.newRow token isDir n] } := by
  have hany : st.fs.any (fun r => r.name == token) = false := by
    rw [List.any_eq_false]
    exact List.find?_eq_none.mp hrow
  unfold wp insertNode
  simp only [h.quoted, hany]
  exact Iff.rfl

theorem wp_deleteNode (h : Plain token) :
    wp (deleteNode sq token) Q E st ↔ Q () (st.remove token) := by
  unfold wp deleteNode
  simp only [h.quoted, nameIs_plain h]
  exact Iff.rfl

/-- An update whose text is carried as one quoted token. -/
theorem wp_updateText {content value : Str} {generation checksum : UInt64} (h : Plain token)
    (hvalue : quoted content = some value) :
    wp (updateContent sq content generation checksum token) Q E st ↔
      Q () (st.update token (FsRow.withText value generation checksum)) := by
  unfold wp updateContent
  simp only [h.quoted, hvalue, nameIs_plain h]
  exact Iff.rfl

theorem wp_updateOwnerText {owner value : Str} {generation : UInt64} (h : Plain token)
    (hvalue : quoted owner = some value) :
    wp (updateLockOwner sq owner generation token) Q E st ↔
      Q () (st.update token (FsRow.withOwnerText value generation)) := by
  unfold wp updateLockOwner
  simp only [h.quoted, hvalue, nameIs_plain h]
  exact Iff.rfl

theorem wp_clearLockOwner (h : Plain token) :
    wp (clearLockOwner sq noOwner token) Q E st ↔ Q () (st.update token FsRow.withoutOwner) := by
  have howner : quoted noOwner = some noOwner := rfl
  have hvalue : ∀ r, textValue noOwner r = noOwner := fun _ => rfl
  unfold wp clearLockOwner
  simp only [h.quoted, howner, nameIs_plain h, hvalue]
  exact Iff.rfl

end Statements

/-! ## How the methods end -/

/-- What the methods rely on and keep: no transaction is open, the counter has
    its row, names are distinct and well formed, and no stored text would end a
    quoted token. -/
structure Store.Ready (st : Store) : Prop where
  idle : st.inTransaction = false
  counter : ∃ m, st.maxInstanceNumber = some m
  nodup : (st.fs.map FsRow.name).Nodup
  names : ∀ r ∈ st.fs, NameOk r.name
  contents : ∀ r ∈ st.fs, '"' ∉ r.content
  owners : ∀ r ∈ st.fs, '"' ∉ r.lockOwner

section Keep

variable {st : Store} {name : Str}

theorem Store.ready_empty : Store.empty.Ready := by
  constructor <;> simp [Store.empty]

/-- A text stored through a quoted token holds no quote if the token holds none. -/
theorem quote_not_mem_textValue (hst : st.Ready) {r : FsRow} (hr : r ∈ st.fs) {token : Str}
    (h : '"' ∉ token) : '"' ∉ textValue token r := by
  unfold textValue
  cases columnOf token with
  | none => exact h
  | some c =>
    cases c with
    | name => exact (hst.names r hr).quote
    | content => exact hst.contents r hr
    | lockOwner => exact hst.owners r hr
    | _ => exact quote_not_mem_decimal _

theorem quote_not_mem_noOwner : '"' ∉ noOwner := by decide

theorem Store.mem_update {f : FsRow → FsRow} {r : FsRow} :
    r ∈ (st.update name f).fs ↔
      ∃ r' ∈ st.fs, (if r'.name = name then f r' else r') = r := by
  simp [Store.update, Store.updateWhere]

theorem Store.names_update {f : FsRow → FsRow} (hname : ∀ r, (f r).name = r.name) (st : Store) :
    (st.update name f).fs.map FsRow.name = st.fs.map FsRow.name := by
  unfold Store.update Store.updateWhere
  rw [List.map_map]
  apply List.map_congr_left
  intro r _
  simp only [Function.comp_apply]
  split_ifs
  · exact hname r
  · rfl

theorem Store.nodup_create (h : (st.fs.map FsRow.name).Nodup) (hrow : st.row name = none)
    (isDir : Bool) (n : UInt64) : ((st.create name isDir n).fs.map FsRow.name).Nodup := by
  rw [Store.create, List.map_append]
  refine List.nodup_append'.mpr ⟨h, List.nodup_singleton _, ?_⟩
  rw [List.map_singleton, List.disjoint_singleton]
  intro hin
  obtain ⟨r, hr, hrname⟩ := List.mem_map.mp hin
  have hnone := List.find?_eq_none.mp hrow r hr
  rw [hrname] at hnone
  simp [Store.newRow] at hnone

theorem Store.nodup_remove (h : (st.fs.map FsRow.name).Nodup) :
    ((st.remove name).fs.map FsRow.name).Nodup :=
  h.sublist (List.filter_sublist.map _)

theorem Store.mem_create {isDir : Bool} {n : UInt64} {r : FsRow} :
    r ∈ (st.create name isDir n).fs ↔ r ∈ st.fs ∨ r = st.newRow name isDir n := by
  simp [Store.create]

theorem Store.mem_remove {r : FsRow} : r ∈ (st.remove name).fs ↔ r ∈ st.fs ∧ r.name ≠ name := by
  simp [Store.remove]

/-- Changing rows but not their names, with texts that stay free of quotes. -/
theorem Store.Ready.update (hst : st.Ready) {f : FsRow → FsRow} (hname : ∀ r, (f r).name = r.name)
    (hcontent : ∀ r ∈ st.fs, '"' ∉ (f r).content) (howner : ∀ r ∈ st.fs, '"' ∉ (f r).lockOwner) :
    (st.update name f).Ready := by
  refine ⟨hst.idle, hst.counter, ?_, ?_, ?_, ?_⟩
  · rw [Store.names_update hname]
    exact hst.nodup
  · intro r hr
    obtain ⟨r', hr', rfl⟩ := Store.mem_update.mp hr
    split_ifs
    · rw [hname]
      exact hst.names r' hr'
    · exact hst.names r' hr'
  · intro r hr
    obtain ⟨r', hr', rfl⟩ := Store.mem_update.mp hr
    split_ifs
    · exact hcontent r' hr'
    · exact hst.contents r' hr'
  · intro r hr
    obtain ⟨r', hr', rfl⟩ := Store.mem_update.mp hr
    split_ifs
    · exact howner r' hr'
    · exact hst.owners r' hr'

theorem Store.Ready.withContent (hst : st.Ready) {content : Str} (h : '"' ∉ content)
    (generation checksum : UInt64) :
    (st.update name (FsRow.withContent content generation checksum)).Ready :=
  hst.update (fun _ => rfl)
    (fun _ hr => quote_not_mem_textValue hst hr (quote_not_mem_cString h)) hst.owners

theorem Store.Ready.withOwner (hst : st.Ready) {owner : Str} (h : '"' ∉ owner)
    (generation : UInt64) : (st.update name (FsRow.withOwner owner generation)).Ready :=
  hst.update (fun _ => rfl) hst.contents
    (fun _ hr => quote_not_mem_textValue hst hr (quote_not_mem_cString h))

theorem Store.Ready.withoutOwner (hst : st.Ready) :
    (st.update name FsRow.withoutOwner).Ready :=
  hst.update (fun _ => rfl) hst.contents (fun _ _ => quote_not_mem_noOwner)

theorem Store.Ready.create (hst : st.Ready) (hname : NameOk name) (hrow : st.row name = none)
    (isDir : Bool) (n : UInt64) : (st.create name isDir n).Ready := by
  obtain ⟨m, hm⟩ := hst.counter
  refine ⟨hst.idle, ⟨_, by rw [Store.create, hm]; rfl⟩, Store.nodup_create hst.nodup hrow isDir n,
    ?_, ?_, ?_⟩
  · intro r hr
    rcases Store.mem_create.mp hr with hr | rfl
    · exact hst.names r hr
    · exact hname
  · intro r hr
    rcases Store.mem_create.mp hr with hr | rfl
    · exact hst.contents r hr
    · exact List.not_mem_nil
  · intro r hr
    rcases Store.mem_create.mp hr with hr | rfl
    · exact hst.owners r hr
    · exact quote_not_mem_noOwner

theorem Store.Ready.remove (hst : st.Ready) : (st.remove name).Ready where
  idle := hst.idle
  counter := hst.counter
  nodup := Store.nodup_remove hst.nodup
  names r hr := hst.names r (Store.mem_remove.mp hr).1
  contents r hr := hst.contents r (Store.mem_remove.mp hr).1
  owners r hr := hst.owners r (Store.mem_remove.mp hr).1

end Keep

namespace ServerDb

variable (sq : Engine) (strHash : Str → UInt64)

/-- The change of the parent's row when its content becomes `content`. -/
def touchParent (content : Str) (parent : FsRow) : FsRow → FsRow :=
  FsRow.withContent content (UInt64.ofInt parent.contentGenerationNumber + 1) (strHash content)

/-- How `checkAndCreate` ends. -/
inductive CreateEnds (name : Str) (isDir : Bool) (st : Store) :
    Outcome Fault Store (Option UInt64) → Prop
  | present {r : FsRow} : st.row name = some r → CreateEnds name isDir st (.ret none st)
  | noParent : st.row name = none → getParentName name ≠ root →
      st.row (getParentName name) = none → CreateEnds name isDir st (.ret none st)
  | fileParent {p : FsRow} : st.row name = none → getParentName name ≠ root →
      st.row (getParentName name) = some p → p.isDirectory = 0 →
      CreateEnds name isDir st (.ret none st)
  | top {m : Int} : st.row name = none → getParentName name = root →
      st.maxInstanceNumber = some m →
      CreateEnds name isDir st
        (.ret (some (UInt64.ofInt m + 1)) (st.create name isDir (UInt64.ofInt m + 1)))
  | nested {m : Int} {p : FsRow} : st.row name = none → getParentName name ≠ root →
      st.row (getParentName name) = some p → p.isDirectory ≠ 0 →
      st.maxInstanceNumber = some m →
      CreateEnds name isDir st (.ret (some (UInt64.ofInt m + 1))
        ((st.create name isDir (UInt64.ofInt m + 1)).update (getParentName name)
          (touchParent strHash (dirContentCreate p.content name) p)))

/-- How `checkAndDelete` ends. -/
inductive DeleteEnds (name : Str) (n : UInt64) (st : Store) : Outcome Fault Store Bool → Prop
  | absent : st.row name = none → DeleteEnds name n st (.ret false st)
  | refused {r : FsRow} : st.row name = some r →
      (r.lockOwner ≠ noOwner ∨ UInt64.ofInt r.instanceNumber ≠ n ∨
        (r.isDirectory ≠ 0 ∧ r.content ≠ [])) → DeleteEnds name n st (.ret false st)
  | top {r : FsRow} : st.row name = some r → r.lockOwner = noOwner →
      UInt64.ofInt r.instanceNumber = n → ¬ (r.isDirectory ≠ 0 ∧ r.content ≠ []) →
      getParentName name = root → DeleteEnds name n st (.ret true (st.remove name))
  | badParent {r : FsRow} {st' : Store} : st.row name = some r → getParentName name ≠ root →
      (∀ p, st.row (getParentName name) = some p → p.isDirectory ≠ 1) →
      DeleteEnds name n st (.stop .assertion st')
  | nested {r p : FsRow} : st.row name = some r → r.lockOwner = noOwner →
      UInt64.ofInt r.instanceNumber = n → ¬ (r.isDirectory ≠ 0 ∧ r.content ≠ []) →
      getParentName name ≠ root → st.row (getParentName name) = some p → p.isDirectory = 1 →
      DeleteEnds name n st (.ret true ((st.remove name).update (getParentName name)
        (touchParent strHash (dirContentDelete p.content name) p)))

/-- How `checkAndCreate` ends when the new content of the parent is carried as one token. -/
inductive CreateTextEnds (name : Str) (isDir : Bool) (st : Store) :
    Outcome Fault Store (Option UInt64) → Prop
  | present {r : FsRow} : st.row name = some r → CreateTextEnds name isDir st (.ret none st)
  | noParent : st.row name = none → getParentName name ≠ root →
      st.row (getParentName name) = none → CreateTextEnds name isDir st (.ret none st)
  | fileParent {p : FsRow} : st.row name = none → getParentName name ≠ root →
      st.row (getParentName name) = some p → p.isDirectory = 0 →
      CreateTextEnds name isDir st (.ret none st)
  | top {m : Int} : st.row name = none → getParentName name = root →
      st.maxInstanceNumber = some m →
      CreateTextEnds name isDir st
        (.ret (some (UInt64.ofInt m + 1)) (st.create name isDir (UInt64.ofInt m + 1)))
  | nested {m : Int} {p : FsRow} {value : Str} : st.row name = none → getParentName name ≠ root →
      st.row (getParentName name) = some p → p.isDirectory ≠ 0 →
      st.maxInstanceNumber = some m → quoted (dirContentCreate p.content name) = some value →
      CreateTextEnds name isDir st (.ret (some (UInt64.ofInt m + 1))
        ((st.create name isDir (UInt64.ofInt m + 1)).update (getParentName name)
          (FsRow.withText value (UInt64.ofInt p.contentGenerationNumber + 1)
            (strHash (dirContentCreate p.content name)))))

/-- How `checkAndDelete` ends when the new content of the parent is carried as one token. -/
inductive DeleteTextEnds (name : Str) (n : UInt64) (st : Store) : Outcome Fault Store Bool → Prop
  | absent : st.row name = none → DeleteTextEnds name n st (.ret false st)
  | refused {r : FsRow} : st.row name = some r →
      (r.lockOwner ≠ noOwner ∨ UInt64.ofInt r.instanceNumber ≠ n ∨
        (r.isDirectory ≠ 0 ∧ r.content ≠ [])) → DeleteTextEnds name n st (.ret false st)
  | top {r : FsRow} : st.row name = some r → r.lockOwner = noOwner →
      UInt64.ofInt r.instanceNumber = n → ¬ (r.isDirectory ≠ 0 ∧ r.content ≠ []) →
      getParentName name = root → DeleteTextEnds name n st (.ret true (st.remove name))
  | badParent {r : FsRow} {st' : Store} : st.row name = some r → getParentName name ≠ root →
      (∀ p, st.row (getParentName name) = some p → p.isDirectory ≠ 1) →
      DeleteTextEnds name n st (.stop .assertion st')
  | nested {r p : FsRow} {value : Str} : st.row name = some r → r.lockOwner = noOwner →
      UInt64.ofInt r.instanceNumber = n → ¬ (r.isDirectory ≠ 0 ∧ r.content ≠ []) →
      getParentName name ≠ root → st.row (getParentName name) = some p → p.isDirectory = 1 →
      quoted (dirContentDelete p.content name) = some value →
      DeleteTextEnds name n st (.ret true ((st.remove name).update (getParentName name)
        (FsRow.withText value (UInt64.ofInt p.contentGenerationNumber + 1)
          (strHash (dirContentDelete p.content name)))))

/-- How `checkAndUpdate` ends. -/
inductive UpdateEnds (name : Str) (n : UInt64) (content : Str) (st : Store) :
    Outcome Fault Store Bool → Prop
  | refused : (∀ r, st.row name = some r → UInt64.ofInt r.instanceNumber ≠ n) →
      UpdateEnds name n content st (.ret false st)
  | updated {r : FsRow} : st.row name = some r → UInt64.ofInt r.instanceNumber = n →
      UpdateEnds name n content st
        (.ret true (st.update name (touchParent strHash content r)))

/-- How `checkAndUpdate` ends when its content is carried as the token `value`. -/
inductive UpdateTextEnds (name : Str) (n : UInt64) (content value : Str) (st : Store) :
    Outcome Fault Store Bool → Prop
  | refused : (∀ r, st.row name = some r → UInt64.ofInt r.instanceNumber ≠ n) →
      UpdateTextEnds name n content value st (.ret false st)
  | updated {r : FsRow} : st.row name = some r → UInt64.ofInt r.instanceNumber = n →
      UpdateTextEnds name n content value st (.ret true (st.update name
        (FsRow.withText value (UInt64.ofInt r.contentGenerationNumber + 1) (strHash content))))

/-- How `testAndSetLockOwner` ends. -/
inductive LockEnds (name : Str) (n : UInt64) (owner : Str) (st : Store) :
    Outcome Fault Store Bool → Prop
  | refused : (∀ r, st.row name = some r →
        UInt64.ofInt r.instanceNumber ≠ n ∨ r.lockOwner ≠ noOwner) →
      LockEnds name n owner st (.ret false st)
  | locked {r : FsRow} : st.row name = some r → UInt64.ofInt r.instanceNumber = n →
      r.lockOwner = noOwner →
      LockEnds name n owner st (.ret true (st.update name
        (FsRow.withOwner owner (UInt64.ofInt r.lockGenerationNumber + 1))))

/-- How `testAndSetLockOwner` ends when the client id is carried as the token `value`. -/
inductive LockTextEnds (name : Str) (n : UInt64) (value : Str) (st : Store) :
    Outcome Fault Store Bool → Prop
  | refused : (∀ r, st.row name = some r →
        UInt64.ofInt r.instanceNumber ≠ n ∨ r.lockOwner ≠ noOwner) →
      LockTextEnds name n value st (.ret false st)
  | locked {r : FsRow} : st.row name = some r → UInt64.ofInt r.instanceNumber = n →
      r.lockOwner = noOwner →
      LockTextEnds name n value st (.ret true (st.update name
        (FsRow.withOwnerText value (UInt64.ofInt r.lockGenerationNumber + 1))))

/-- How `resetLockOwner` ends. -/
inductive UnlockEnds (name : Str) (n : UInt64) (st : Store) : Outcome Fault Store Bool → Prop
  | refused : (∀ r, st.row name = some r → UInt64.ofInt r.instanceNumber ≠ n) →
      UnlockEnds name n st (.ret false st)
  | unlocked {r : FsRow} : st.row name = some r → UInt64.ofInt r.instanceNumber = n →
      UnlockEnds name n st (.ret true (st.update name FsRow.withoutOwner))

section Specs

variable {st : Store} {name : Str}

open Prog

theorem no_quote_cons {content : Str} (h : '"' ∉ content) (hname : NameOk name) :
    '"' ∉ dirContentCreate content name := by
  unfold dirContentCreate
  simp [h, hname.quote]

theorem no_quote_delete {content : Str} (h : '"' ∉ content) (name : Str) :
    '"' ∉ dirContentDelete content name := by
  intro hm
  rcases mem_dirContentDelete hm with hbar | hm
  · cases hbar
  · exact h hm

/-- The statements of `checkAndCreate`, run from a store without the node. -/
theorem createNode_top (hidle : st.inTransaction = false) (hname : Plain name)
    (hrow : st.row name = none) (isDir : Bool) (n : UInt64) {Q : Unit → Store → Prop}
    {E : Fault → Store → Prop} :
    wp (createNode sq strHash name isDir n none) Q E st ↔ Q () (st.create name isDir n) := by
  have hrow' : Store.row { st with inTransaction := true } name = none := hrow
  simp only [createNode, updateMaxInstance, wp_bind, wp_sqlBegin hidle,
    wp_insertNode hname hrow', wp_modify]
  obtain ⟨fs, m, t⟩ := st
  obtain rfl : t = false := hidle
  exact Iff.rfl

theorem createNode_nested (hidle : st.inTransaction = false) (hname : Plain name)
    (hparent : Plain (getParentName name)) (hrow : st.row name = none) (isDir : Bool) (n : UInt64)
    {p : FsRow} {value : Str} (hvalue : quoted (dirContentCreate p.content name) = some value)
    {Q : Unit → Store → Prop} {E : Fault → Store → Prop} :
    wp (createNode sq strHash name isDir n
        (some ⟨p.content, UInt64.ofInt p.contentGenerationNumber⟩)) Q E st ↔
      Q () ((st.create name isDir n).update (getParentName name)
        (FsRow.withText value (UInt64.ofInt p.contentGenerationNumber + 1)
          (strHash (dirContentCreate p.content name)))) := by
  have hrow' : Store.row { st with inTransaction := true } name = none := hrow
  simp only [createNode, updateMaxInstance, updateParent, wp_bind, wp_sqlBegin hidle,
    wp_insertNode hname hrow', wp_modify, wp_updateText hparent hvalue]
  obtain ⟨fs, m, t⟩ := st
  obtain rfl : t = false := hidle
  exact Iff.rfl

/-- `checkAndCreate` where no transaction is open and the parent's new content
    is carried as one token. -/
theorem checkAndCreate_text (hidle : st.inTransaction = false)
    (hcounter : ∃ m, st.maxInstanceNumber = some m) (hname : Plain name)
    (hparent : Plain (getParentName name))
    (hvalue : ∀ p, st.row (getParentName name) = some p → p.isDirectory ≠ 0 →
      quoted (dirContentCreate p.content name) ≠ none) (isDir : Bool) :
    CreateTextEnds strHash name isDir st (checkAndCreate sq strHash name isDir st) := by
  apply wp_outcome.mp
  obtain ⟨m, hm⟩ := hcounter
  simp only [checkAndCreate, wp_bind, wp_selectByName hname]
  cases hrow : st.row name with
  | some r => exact .present hrow
  | none =>
    simp only [wp_ite]
    split_ifs with hroot
    · simp only [createNext, wp_bind, wp_gets, hm, createNode_top sq strHash hidle hname hrow]
      exact .top hrow hroot hm
    · simp only [wp_bind, wp_selectByName hparent]
      cases hp : st.row (getParentName name) with
      | none => exact .noParent hrow hroot hp
      | some p =>
        simp only [wp_ite]
        split_ifs with hdir
        · exact .fileParent hrow hroot hp hdir
        · obtain ⟨value, hv⟩ := Option.ne_none_iff_exists'.mp (hvalue p hp hdir)
          simp only [createNext, wp_bind, wp_gets, hm,
            createNode_nested sq strHash hidle hname hparent hrow _ _ hv]
          exact .nested hrow hroot hp hdir hm hv

/-- `checkAndCreate` where no transaction is open and the parent's content holds no quote. -/
theorem checkAndCreate_cases (hidle : st.inTransaction = false)
    (hcounter : ∃ m, st.maxInstanceNumber = some m) (hname : NameOk name)
    (hparent : ∀ p, st.row (getParentName name) = some p → p.isDirectory ≠ 0 →
      '"' ∉ p.content) (isDir : Bool) :
    CreateEnds strHash name isDir st (checkAndCreate sq strHash name isDir st) := by
  have hquoted : ∀ p, st.row (getParentName name) = some p → p.isDirectory ≠ 0 →
      quoted (dirContentCreate p.content name) =
        some (cString (dirContentCreate p.content name)) :=
    fun p hp hdir => quoted_of_no_quote (no_quote_cons (hparent p hp hdir) hname)
  have hends := checkAndCreate_text sq strHash hidle hcounter hname.plain hname.plainParent
    (fun p hp hdir => by simp [hquoted p hp hdir]) isDir
  generalize checkAndCreate sq strHash name isDir st = o at hends ⊢
  cases hends with
  | present hrow => exact .present hrow
  | noParent hrow hroot hp => exact .noParent hrow hroot hp
  | fileParent hrow hroot hp hdir => exact .fileParent hrow hroot hp hdir
  | top hrow hroot hm => exact .top hrow hroot hm
  | nested hrow hroot hp hdir hm hv =>
    rw [hquoted _ hp hdir] at hv
    cases hv
    exact .nested hrow hroot hp hdir hm

theorem checkAndCreate_ends (hst : st.Ready) (hname : NameOk name) (isDir : Bool) :
    CreateEnds strHash name isDir st (checkAndCreate sq strHash name isDir st) :=
  checkAndCreate_cases sq strHash hst.idle hst.counter hname
    (fun p hp _ => hst.contents p (Store.row_mem hp)) isDir

/-- The statements of `checkAndDelete`, for a node below the root. -/
theorem removeNode_top (hidle : st.inTransaction = false) (hname : Plain name)
    {Q : Unit → Store → Prop} {E : Fault → Store → Prop} :
    wp (removeNode sq strHash name none) Q E st ↔ Q () (st.remove name) := by
  simp only [removeNode, wp_bind, wp_sqlBegin hidle, wp_deleteNode hname]
  obtain ⟨fs, m, t⟩ := st
  obtain rfl : t = false := hidle
  exact Iff.rfl

theorem removeNode_nested (hidle : st.inTransaction = false) (hname : Plain name)
    (hparent : Plain (getParentName name)) {p : FsRow} {value : Str}
    (hvalue : quoted (dirContentDelete p.content name) = some value) {Q : Unit → Store → Prop}
    {E : Fault → Store → Prop} :
    wp (removeNode sq strHash name
        (some ⟨p.content, UInt64.ofInt p.contentGenerationNumber⟩)) Q E st ↔
      Q () ((st.remove name).update (getParentName name)
        (FsRow.withText value (UInt64.ofInt p.contentGenerationNumber + 1)
          (strHash (dirContentDelete p.content name)))) := by
  simp only [removeNode, updateParent, wp_bind, wp_sqlBegin hidle, wp_deleteNode hname,
    wp_updateText hparent hvalue]
  obtain ⟨fs, m, t⟩ := st
  obtain rfl : t = false := hidle
  exact Iff.rfl

/-- `checkAndDelete` where no transaction is open and the parent's new content
    is carried as one token. -/
theorem checkAndDelete_text (hidle : st.inTransaction = false) (hname : Plain name)
    (hparent : Plain (getParentName name))
    (hvalue : ∀ p, st.row (getParentName name) = some p → p.isDirectory ≠ 0 →
      quoted (dirContentDelete p.content name) ≠ none) (n : UInt64) :
    DeleteTextEnds strHash name n st (checkAndDelete sq strHash name n st) := by
  apply wp_outcome.mp
  simp only [checkAndDelete, wp_bind, wp_selectByName hname]
  cases hrow : st.row name with
  | none => exact .absent hrow
  | some r =>
    simp only [wp_ite]
    split_ifs with howner hn hdir hroot
    · exact .refused hrow (Or.inl howner)
    · exact .refused hrow (Or.inr (Or.inl hn))
    · exact .refused hrow (Or.inr (Or.inr hdir))
    · simp only [wp_bind, removeNode_top sq strHash hidle hname]
      exact .top hrow (not_not.mp howner) (not_not.mp hn) hdir hroot
    · simp only [wp_bind, wp_selectByName hparent]
      cases hp : st.row (getParentName name) with
      | none =>
        refine .badParent hrow hroot fun p hp' => ?_
        rw [hp] at hp'
        cases hp'
      | some p =>
        simp only [wp_ite]
        split_ifs with hisdir
        · refine .badParent hrow hroot fun p' hp' => ?_
          rw [hp] at hp'
          cases hp'
          exact hisdir
        · obtain ⟨value, hv⟩ := Option.ne_none_iff_exists'.mp (hvalue p hp (by omega))
          simp only [wp_bind, removeNode_nested sq strHash hidle hname hparent hv]
          exact .nested hrow (not_not.mp howner) (not_not.mp hn) hdir hroot hp
            (not_not.mp hisdir) hv

/-- `checkAndDelete` where no transaction is open and the parent's content holds no quote. -/
theorem checkAndDelete_cases (hidle : st.inTransaction = false) (hname : NameOk name)
    (hparent : ∀ p, st.row (getParentName name) = some p → p.isDirectory ≠ 0 →
      '"' ∉ p.content) (n : UInt64) :
    DeleteEnds strHash name n st (checkAndDelete sq strHash name n st) := by
  have hquoted : ∀ p, st.row (getParentName name) = some p → p.isDirectory ≠ 0 →
      quoted (dirContentDelete p.content name) =
        some (cString (dirContentDelete p.content name)) :=
    fun p hp hdir => quoted_of_no_quote (no_quote_delete (hparent p hp hdir) name)
  have hends := checkAndDelete_text sq strHash hidle hname.plain hname.plainParent
    (fun p hp hdir => by simp [hquoted p hp hdir]) n
  generalize checkAndDelete sq strHash name n st = o at hends ⊢
  cases hends with
  | absent hrow => exact .absent hrow
  | refused hrow hwhy => exact .refused hrow hwhy
  | top hrow howner hn hempty hroot => exact .top hrow howner hn hempty hroot
  | badParent hrow hroot hbad => exact .badParent hrow hroot hbad
  | nested hrow howner hn hempty hroot hp hpdir hv =>
    rw [hquoted _ hp (by omega)] at hv
    cases hv
    exact .nested hrow howner hn hempty hroot hp hpdir

theorem checkAndDelete_ends (hst : st.Ready) (hname : NameOk name) (n : UInt64) :
    DeleteEnds strHash name n st (checkAndDelete sq strHash name n st) :=
  checkAndDelete_cases sq strHash hst.idle hname
    (fun p hp _ => hst.contents p (Store.row_mem hp)) n

/-- What `checkAndRead` returns of a row. -/
def readRow (r : FsRow) : Str × MetaData :=
  (r.content,
    { instanceNumber := UInt64.ofInt r.instanceNumber
      contentGenerationNumber := UInt64.ofInt r.contentGenerationNumber
      lockGenerationNumber := UInt64.ofInt r.lockGenerationNumber
      fileContentChecksum := UInt64.ofInt r.fileContentChecksum
      isDirectory := r.isDirectory != 0 })

/-- The reading methods leave the store alone. -/
theorem checkAndOpen_row (hname : Plain name) :
    checkAndOpen sq name st =
      .ret ((st.row name).map fun r => UInt64.ofInt r.instanceNumber) st := by
  have h : wp (checkAndOpen sq name)
      (fun r st' => r = (st.row name).map (fun r => UInt64.ofInt r.instanceNumber) ∧ st' = st)
      (fun _ _ => False) st := by
    simp only [checkAndOpen, wp_bind, wp_selectByName hname]
    cases st.row name with
    | none => exact ⟨rfl, rfl⟩
    | some r => exact ⟨rfl, rfl⟩
  cases hrun : checkAndOpen sq name st with
  | ret r st' =>
    obtain ⟨rfl, rfl⟩ := wp_of_ret h hrun
    rfl
  | stop e st' => exact (wp_of_stop h hrun).elim

theorem checkAndOpen_eq (hname : NameOk name) :
    checkAndOpen sq name st =
      .ret ((st.row name).map fun r => UInt64.ofInt r.instanceNumber) st :=
  checkAndOpen_row sq hname.plain

theorem checkAndRead_row (hname : Plain name) (n : UInt64) :
    checkAndRead sq name n st =
      .ret (((st.row name).filter fun r => UInt64.ofInt r.instanceNumber == n).map readRow) st := by
  have h : wp (checkAndRead sq name n)
      (fun r st' => r = ((st.row name).filter fun r =>
        UInt64.ofInt r.instanceNumber == n).map readRow ∧ st' = st) (fun _ _ => False) st := by
    simp only [checkAndRead, wp_bind, wp_selectByName hname]
    cases st.row name with
    | none => exact ⟨rfl, rfl⟩
    | some r =>
      simp only [wp_ite]
      split_ifs with hn
      · exact ⟨by simp [Option.filter, hn], rfl⟩
      · exact ⟨by simp [Option.filter, not_not.mp hn, readRow], rfl⟩
  cases hrun : checkAndRead sq name n st with
  | ret r st' =>
    obtain ⟨rfl, rfl⟩ := wp_of_ret h hrun
    rfl
  | stop e st' => exact (wp_of_stop h hrun).elim

theorem checkAndRead_store (hname : NameOk name) (n : UInt64) :
    ∃ r, checkAndRead sq name n st = .ret r st :=
  ⟨_, checkAndRead_row sq hname.plain n⟩

/-- `checkAndUpdate` where no transaction is open and the content is carried as one token. -/
theorem checkAndUpdate_text (hidle : st.inTransaction = false) (hname : Plain name) (n : UInt64)
    {content value : Str} (hvalue : quoted content = some value) :
    UpdateTextEnds strHash name n content value st
      (checkAndUpdate sq strHash name n content st) := by
  apply wp_outcome.mp
  simp only [checkAndUpdate, wp_bind, wp_selectByName hname]
  cases hrow : st.row name with
  | none => exact .refused (by simp [hrow])
  | some r =>
    simp only [wp_ite]
    split_ifs with hn
    · exact .refused (by simpa [hrow] using hn)
    · have hends : UpdateTextEnds strHash name n content value st _ := .updated hrow (not_not.mp hn)
      simp only [wp_bind, wp_sqlBegin hidle, wp_updateText hname hvalue]
      obtain ⟨fs, m, t⟩ := st
      obtain rfl : t = false := hidle
      exact hends

theorem checkAndUpdate_ends (hst : st.Ready) (hname : NameOk name) (n : UInt64) {content : Str}
    (hcontent : '"' ∉ content) :
    UpdateEnds strHash name n content st (checkAndUpdate sq strHash name n content st) := by
  have hends := checkAndUpdate_text sq strHash hst.idle hname.plain n (quoted_of_no_quote hcontent)
  generalize checkAndUpdate sq strHash name n content st = o at hends ⊢
  cases hends with
  | refused hwhy => exact .refused hwhy
  | updated hrow hn => exact .updated hrow hn

/-- `testAndSetLockOwner` where no transaction is open and the client id is carried as one token. -/
theorem testAndSetLockOwner_text (hidle : st.inTransaction = false) (hname : Plain name)
    (n : UInt64) {owner value : Str} (hvalue : quoted owner = some value) :
    LockTextEnds name n value st (testAndSetLockOwner sq name n owner st) := by
  apply wp_outcome.mp
  simp only [testAndSetLockOwner, wp_bind, wp_selectByName hname]
  cases hrow : st.row name with
  | none => exact .refused (by simp [hrow])
  | some r =>
    simp only [wp_ite]
    split_ifs with hn hfree
    · exact .refused (by simpa [hrow] using Or.inl hn)
    · exact .refused (by simpa [hrow] using Or.inr hfree)
    · have hends : LockTextEnds name n value st _ := .locked hrow (not_not.mp hn) (not_not.mp hfree)
      simp only [wp_bind, wp_sqlBegin hidle, wp_updateOwnerText hname hvalue]
      obtain ⟨fs, m, t⟩ := st
      obtain rfl : t = false := hidle
      exact hends

theorem testAndSetLockOwner_ends (hst : st.Ready) (hname : NameOk name) (n : UInt64) {owner : Str}
    (howner : '"' ∉ owner) :
    LockEnds name n owner st (testAndSetLockOwner sq name n owner st) := by
  have hends := testAndSetLockOwner_text sq hst.idle hname.plain n (quoted_of_no_quote howner)
  generalize testAndSetLockOwner sq name n owner st = o at hends ⊢
  cases hends with
  | refused hwhy => exact .refused hwhy
  | locked hrow hn hfree => exact .locked hrow hn hfree

theorem resetLockOwner_cases (hidle : st.inTransaction = false) (hname : Plain name) (n : UInt64) :
    UnlockEnds name n st (resetLockOwner sq name n st) := by
  apply wp_outcome.mp
  simp only [resetLockOwner, wp_bind, wp_selectByName hname]
  cases hrow : st.row name with
  | none => exact .refused (by simp [hrow])
  | some r =>
    simp only [wp_ite]
    split_ifs with hn
    · exact .refused (by simpa [hrow] using hn)
    · have hends : UnlockEnds name n st _ := .unlocked hrow (not_not.mp hn)
      simp only [wp_bind, wp_sqlBegin hidle, wp_clearLockOwner hname]
      obtain ⟨fs, m, t⟩ := st
      obtain rfl : t = false := hidle
      exact hends

theorem resetLockOwner_ends (hst : st.Ready) (hname : NameOk name) (n : UInt64) :
    UnlockEnds name n st (resetLockOwner sq name n st) :=
  resetLockOwner_cases sq hst.idle hname.plain n

end Specs

end ServerDb

end SimpleChubby
