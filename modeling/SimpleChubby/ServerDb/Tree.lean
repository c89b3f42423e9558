import SimpleChubby.Lib.Lts
import SimpleChubby.ServerDb.Rows

/-!
# The directory tree

The tree of nodes is kept in two forms: in the names, by `getParentName`, and in
the contents of the directories, as a list of children edited by
`dirContentCreate` and `dirContentDelete`. Along every run of `ServerDB` calls
the two agree. The run carries the names of the nodes in the order of their
creation, which the code does not store.
-/

namespace SimpleChubby

open SqlText

/-- A call of a method of `ServerDB`. -/
inductive DbOp where
  | checkAndCreate (name : Str) (isDir : Bool)
  | checkAndOpen (name : Str)
  | checkAndDelete (name : Str) (n : UInt64)
  | checkAndRead (name : Str) (n : UInt64)
  | checkAndUpdate (name : Str) (n : UInt64) (content : Str)
  | testAndSetLockOwner (name : Str) (n : UInt64) (clientId : Str)
  | resetLockOwner (name : Str) (n : UInt64)
  | getStates
  deriving DecidableEq, Repr

/-- A store with the names of its nodes in the order of their creation. -/
structure Tree where
  store : Store
  nodes : List Str

namespace Tree

variable (sq : Engine) (strHash : Str → UInt64)

/-- The tree after a call that does not touch the set of nodes. -/
def after {α : Type} (t : Tree) : Outcome Fault Store α → Option Tree
  | .ret _ st => some { t with store := st }
  | .stop _ _ => none

/-- Run a call. A node created joins the others at the end; a call that throws
    or fails an assertion is no step. -/
def step (op : DbOp) (t : Tree) : Option Tree :=
  match op with
  | .checkAndCreate name isDir =>
    match ServerDb.checkAndCreate sq strHash name isDir t.store with
    | .ret (some _) st => some ⟨st, t.nodes ++ [name]⟩
    | .ret none st => some ⟨st, t.nodes⟩
    | .stop _ _ => none
  | .checkAndDelete name n =>
    match ServerDb.checkAndDelete sq strHash name n t.store with
    | .ret true st => some ⟨st, t.nodes.filter (· ≠ name)⟩
    | .ret false st => some ⟨st, t.nodes⟩
    | .stop _ _ => none
  | .checkAndOpen name => t.after (ServerDb.checkAndOpen sq name t.store)
  | .checkAndRead name n => t.after (ServerDb.checkAndRead sq name n t.store)
  | .checkAndUpdate name n content =>
    t.after (ServerDb.checkAndUpdate sq strHash name n content t.store)
  | .testAndSetLockOwner name n clientId =>
    t.after (ServerDb.testAndSetLockOwner sq name n clientId t.store)
  | .resetLockOwner name n => t.after (ServerDb.resetLockOwner sq name n t.store)
  | .getStates => t.after (ServerDb.getStates t.store)

/-- The runs of `ServerDB` calls from the store that `create` leaves. -/
def lts : Lts Tree DbOp where
  init t := t = ⟨.empty, []⟩
  step := step sq strHash

/-- Names are those `checkName` accepts, texts hold no double quote, and only a
    node that is no directory has its content set. -/
def Allowed (t : Tree) : DbOp → Prop
  | .checkAndCreate name _ => checkName name = true
  | .checkAndOpen name => checkName name = true
  | .checkAndDelete name _ => checkName name = true
  | .checkAndRead name _ => checkName name = true
  | .checkAndUpdate name _ content => checkName name = true ∧ '"' ∉ content ∧
      ∀ r ∈ t.store.fs, r.name = name → r.isDirectory = 0
  | .testAndSetLockOwner name _ clientId => checkName name = true ∧ '"' ∉ clientId
  | .resetLockOwner name _ => checkName name = true
  | .getStates => True

instance (t : Tree) : ∀ op, Decidable (Allowed t op)
  | .checkAndCreate name _ => inferInstanceAs (Decidable (checkName name = true))
  | .checkAndOpen name => inferInstanceAs (Decidable (checkName name = true))
  | .checkAndDelete name _ => inferInstanceAs (Decidable (checkName name = true))
  | .checkAndRead name _ => inferInstanceAs (Decidable (checkName name = true))
  | .checkAndUpdate name _ content => inferInstanceAs (Decidable (checkName name = true ∧
      '"' ∉ content ∧ ∀ r ∈ t.store.fs, r.name = name → r.isDirectory = 0))
  | .testAndSetLockOwner name _ clientId =>
    inferInstanceAs (Decidable (checkName name = true ∧ '"' ∉ clientId))
  | .resetLockOwner name _ => inferInstanceAs (Decidable (checkName name = true))
  | .getStates => inferInstanceAs (Decidable True)

end Tree

/-! ## Children -/

/-- The children of a directory among `nodes`. -/
def children (nodes : List Str) (dir : Str) : List Str :=
  nodes.filter fun node => getParentName node = dir

section Children

variable {nodes : List Str} {dir name : Str}

theorem mem_children {node : Str} :
    node ∈ children nodes dir ↔ node ∈ nodes ∧ getParentName node = dir := by
  simp [children]

theorem children_append_of_eq (h : getParentName name = dir) :
    children (nodes ++ [name]) dir = children nodes dir ++ [name] := by
  simp [children, h]

theorem children_append_of_ne (h : getParentName name ≠ dir) :
    children (nodes ++ [name]) dir = children nodes dir := by
  simp [children, h]

theorem children_filter :
    children (nodes.filter (· ≠ name)) dir = (children nodes dir).filter (· ≠ name) := by
  simp [children, List.filter_filter, Bool.and_comm]

theorem children_filter_of_ne (h : getParentName name ≠ dir) :
    children (nodes.filter (· ≠ name)) dir = children nodes dir := by
  rw [children_filter, List.filter_eq_self]
  intro node hnode
  have hparent := (mem_children.mp hnode).2
  simp only [ne_eq, decide_not, Bool.not_eq_true', decide_eq_false_iff_not]
  rintro rfl
  exact h hparent

end Children

/-- The content of a directory is stored as it is passed. -/
theorem textValue_dirContent {names : List Str} (h : ∀ n ∈ names, NameOk n) (r : FsRow) :
    textValue (cString (dirContent names)) r = dirContent names := by
  have hnul : Char.ofNat 0 ∉ dirContent names := by
    intro hm
    obtain ⟨n, hn, hmem⟩ := List.mem_flatMap.mp hm
    rcases List.mem_cons.mp hmem with hbar | hmem
    · exact absurd hbar (by decide)
    · exact (h n hn).nul hmem
  rw [cString_of_no_nul hnul]
  have hcolumn : columnOf (dirContent names) = none := by
    cases names with
    | nil => rfl
    | cons n rest => simp [dirContent, columnOf, columnNames, sameIdent]
  simp [textValue, hcolumn]

/-! ## The invariant of a run -/

/-- The two forms of the tree agree. -/
structure TreeOk (t : Tree) : Prop where
  ready : t.store.Ready
  nodes : t.store.fs.map FsRow.name = t.nodes
  flags : ∀ r ∈ t.store.fs, r.isDirectory = 0 ∨ r.isDirectory = 1
  parents : ∀ r ∈ t.store.fs, getParentName r.name = root ∨
    ∃ p ∈ t.store.fs, p.name = getParentName r.name ∧ p.isDirectory = 1
  contents : ∀ d ∈ t.store.fs, d.isDirectory = 1 →
    d.content = dirContent (children t.nodes d.name)

/-- The same without the texts that the files and the locks hold. -/
structure Shape (t : Tree) : Prop where
  nodup : (t.store.fs.map FsRow.name).Nodup
  names : ∀ r ∈ t.store.fs, NameOk r.name
  nodes : t.store.fs.map FsRow.name = t.nodes
  flags : ∀ r ∈ t.store.fs, r.isDirectory = 0 ∨ r.isDirectory = 1
  parents : ∀ r ∈ t.store.fs, getParentName r.name = root ∨
    ∃ p ∈ t.store.fs, p.name = getParentName r.name ∧ p.isDirectory = 1
  contents : ∀ d ∈ t.store.fs, d.isDirectory = 1 →
    d.content = dirContent (children t.nodes d.name)

theorem TreeOk.shape {t : Tree} (h : TreeOk t) : Shape t :=
  ⟨h.ready.nodup, h.ready.names, h.nodes, h.flags, h.parents, h.contents⟩

theorem Shape.treeOk {t : Tree} (h : Shape t) (hready : t.store.Ready) : TreeOk t :=
  ⟨hready, h.nodes, h.flags, h.parents, h.contents⟩

namespace Shape

variable {t : Tree} {name : Str} {f : FsRow → FsRow}

theorem nodeNames (h : Shape t) : ∀ node ∈ t.nodes, NameOk node := by
  intro node hnode
  rw [← h.nodes] at hnode
  obtain ⟨r, hr, rfl⟩ := List.mem_map.mp hnode
  exact h.names r hr

theorem mem_nodes (h : Shape t) {node : Str} :
    node ∈ t.nodes ↔ ∃ r ∈ t.store.fs, r.name = node := by
  rw [← h.nodes, List.mem_map]

/-- A row that is not the flag of a file is a directory. -/
theorem directory (h : Shape t) {r : FsRow} (hr : r ∈ t.store.fs) (hdir : r.isDirectory ≠ 0) :
    r.isDirectory = 1 := by
  rcases h.flags r hr with h0 | h1
  · exact absurd h0 hdir
  · exact h1

/-- The child list of a directory holds no quote. -/
theorem quote (h : Shape t) {d : FsRow} (hd : d ∈ t.store.fs) (hdir : d.isDirectory = 1) :
    '"' ∉ d.content := by
  rw [h.contents d hd hdir]
  intro hm
  obtain ⟨n, hn, hmem⟩ := List.mem_flatMap.mp hm
  rcases List.mem_cons.mp hmem with hbar | hmem
  · exact absurd hbar (by decide)
  · exact (h.nodeNames n (mem_children.mp hn).1).quote hmem

/-- A row keeps its name and its kind through an update. -/
theorem mem_update_of_mem (name : Str) (hf : FsRow.Stable f) {st : Store} {r : FsRow}
    (hr : r ∈ st.fs) :
    ∃ r' ∈ (st.update name f).fs, r'.name = r.name ∧ r'.isDirectory = r.isDirectory := by
  refine ⟨if r.name = name then f r else r, Store.mem_update.mpr ⟨r, hr, rfl⟩, ?_⟩
  split_ifs
  · exact ⟨hf.name r, hf.isDirectory r⟩
  · exact ⟨rfl, rfl⟩

/-- An update of one row keeps what all rows have in common by name and kind. -/
theorem forall_update {st : Store} {P : Str → Int → Prop} (hf : FsRow.Stable f)
    (h : ∀ r ∈ st.fs, P r.name r.isDirectory) :
    ∀ r ∈ (st.update name f).fs, P r.name r.isDirectory := by
  intro r hr
  obtain ⟨r', hr', rfl⟩ := Store.mem_update.mp hr
  split_ifs
  · rw [hf.name, hf.isDirectory]
    exact h r' hr'
  · exact h r' hr'

/-- The parents stay when no row goes and none changes its kind. -/
theorem parents_update {st : Store} (hf : FsRow.Stable f)
    (h : ∀ r ∈ st.fs, getParentName r.name = root ∨
      ∃ p ∈ st.fs, p.name = getParentName r.name ∧ p.isDirectory = 1) :
    ∀ r ∈ (st.update name f).fs, getParentName r.name = root ∨
      ∃ p ∈ (st.update name f).fs, p.name = getParentName r.name ∧ p.isDirectory = 1 := by
  refine forall_update (P := fun n _ => getParentName n = root ∨
    ∃ p ∈ (st.update name f).fs, p.name = getParentName n ∧ p.isDirectory = 1) hf ?_
  intro r hr
  rcases h r hr with hroot | ⟨p, hp, hpname, hpdir⟩
  · exact Or.inl hroot
  · obtain ⟨p', hp', hn, hd⟩ := mem_update_of_mem name hf hp
    exact Or.inr ⟨p', hp', hn.trans hpname, hd.trans hpdir⟩

/-- Changing rows, but no name, no kind and no content of a directory. -/
theorem update (h : Shape t) (hf : FsRow.Stable f)
    (hcontent : ∀ r ∈ t.store.fs, r.name = name → r.isDirectory = 1 → (f r).content = r.content) :
    Shape { t with store := t.store.update name f } where
  nodup := by
    rw [Store.names_update hf.name]
    exact h.nodup
  names := forall_update (P := fun n _ => NameOk n) hf h.names
  nodes := (Store.names_update hf.name _).trans h.nodes
  flags := forall_update (P := fun _ d => d = 0 ∨ d = 1) hf h.flags
  parents := parents_update hf h.parents
  contents d hd hisdir := by
    obtain ⟨r', hr', rfl⟩ := Store.mem_update.mp hd
    split_ifs at hisdir ⊢ with hn
    · rw [hf.isDirectory] at hisdir
      rw [hcontent r' hr' hn hisdir, hf.name]
      exact h.contents r' hr' hisdir
    · exact h.contents r' hr' hisdir

/-- No row has the name of the root. -/
theorem update_root {st : Store} (h : ∀ r ∈ st.fs, NameOk r.name) (f : FsRow → FsRow) :
    st.update root f = st := by
  have hmap : st.fs.map (fun r => if (r.name == root) = true then f r else r) = st.fs := by
    conv_rhs => rw [← List.map_id st.fs]
    apply List.map_congr_left
    intro r hr
    rw [if_neg]
    · rfl
    · rw [beq_iff_eq]
      exact (h r hr).ne_root
  unfold Store.update Store.updateWhere
  rw [hmap]

/-- A new node, whose name its parent's content gains at the end. -/
theorem created (h : Shape t) (hname : NameOk name) (hrow : t.store.row name = none)
    (hparent : getParentName name = root ∨
      ∃ p ∈ t.store.fs, p.name = getParentName name ∧ p.isDirectory = 1)
    (hf : FsRow.Stable f)
    (hfcontent : ∀ r ∈ t.store.fs, r.name = getParentName name → r.isDirectory = 1 →
      (f r).content = dirContentCreate r.content name) (isDir : Bool) (n : UInt64) :
    Shape ⟨(t.store.create name isDir n).update (getParentName name) f, t.nodes ++ [name]⟩ := by
  have habsent : ∀ r ∈ t.store.fs, r.name ≠ name := by
    intro r hr hn
    have hnone := List.find?_eq_none.mp hrow r hr
    rw [hn] at hnone
    simp at hnone
  have hnew : (t.store.newRow name isDir n).name ≠ getParentName name :=
    (getParentName_ne hname).symm
  -- nobody was below the new node before
  have hchildless : children (t.nodes ++ [name]) name = [] := by
    rw [children_append_of_ne (getParentName_ne hname)]
    refine List.filter_eq_nil_iff.mpr fun node hnode => ?_
    simp only [decide_eq_true_eq]
    intro hp
    obtain ⟨r, hr, rfl⟩ := h.mem_nodes.mp hnode
    rcases h.parents r hr with hroot | ⟨p, hpmem, hpname, _⟩
    · rw [hp] at hroot
      exact hname.ne_root hroot
    · exact habsent p hpmem (hpname.trans hp)
  have hnames : ∀ r ∈ (t.store.create name isDir n).fs, NameOk r.name := by
    intro r hr
    rcases Store.mem_create.mp hr with hr | rfl
    · exact h.names r hr
    · exact hname
  have hflags : ∀ r ∈ (t.store.create name isDir n).fs, r.isDirectory = 0 ∨ r.isDirectory = 1 := by
    intro r hr
    rcases Store.mem_create.mp hr with hr | rfl
    · exact h.flags r hr
    · cases isDir
      · exact Or.inl rfl
      · exact Or.inr rfl
  have hparents : ∀ r ∈ (t.store.create name isDir n).fs, getParentName r.name = root ∨
      ∃ p ∈ (t.store.create name isDir n).fs, p.name = getParentName r.name ∧
        p.isDirectory = 1 := by
    have hgrow : ∀ {node : Str}, (getParentName node = root ∨
        ∃ p ∈ t.store.fs, p.name = getParentName node ∧ p.isDirectory = 1) →
        getParentName node = root ∨ ∃ p ∈ (t.store.create name isDir n).fs,
          p.name = getParentName node ∧ p.isDirectory = 1 := by
      rintro node (hroot | ⟨p, hp, hpar⟩)
      · exact Or.inl hroot
      · exact Or.inr ⟨p, Store.mem_create.mpr (Or.inl hp), hpar⟩
    intro r hr
    rcases Store.mem_create.mp hr with hr | rfl
    · exact hgrow (h.parents r hr)
    · exact hgrow hparent
  refine ⟨?_, forall_update (P := fun n _ => NameOk n) hf hnames, ?_,
    forall_update (P := fun _ d => d = 0 ∨ d = 1) hf hflags,
    parents_update hf hparents, ?_⟩
  · rw [Store.names_update hf.name]
    exact Store.nodup_create h.nodup hrow isDir n
  · rw [Store.names_update hf.name, Store.create, List.map_append, h.nodes]
    rfl
  · intro d hd hisdir
    obtain ⟨r', hr', rfl⟩ := Store.mem_update.mp hd
    rcases Store.mem_create.mp hr' with hr' | rfl
    · split_ifs at hisdir ⊢ with hn
      · rw [hf.isDirectory] at hisdir
        rw [hfcontent r' hr' hn hisdir, hf.name, h.contents r' hr' hisdir,
          children_append_of_eq hn.symm, dirContentCreate_dirContent]
      · rw [children_append_of_ne (Ne.symm hn)]
        exact h.contents r' hr' hisdir
    · rw [if_neg hnew]
      show [] = dirContent (children (t.nodes ++ [name]) name)
      rw [hchildless]
      rfl

/-- A node with an empty child list has no children. -/
theorem childless (h : Shape t) {r₀ : FsRow} (hrow : t.store.row name = some r₀)
    (hempty : ¬ (r₀.isDirectory ≠ 0 ∧ r₀.content ≠ [])) :
    ∀ r ∈ t.store.fs, getParentName r.name ≠ name := by
  intro r hr hp
  rcases h.parents r hr with hroot | ⟨p, hpmem, hpname, hpdir⟩
  · rw [hroot] at hp
    have hname := h.names r₀ (Store.row_mem hrow)
    rw [Store.row_name hrow, ← hp] at hname
    exact hname.ne_root rfl
  · have hpeq := Store.row_eq h.nodup hpmem
    rw [hpname, hp, hrow] at hpeq
    obtain rfl := Option.some.inj hpeq
    have hcontent := h.contents r₀ hpmem hpdir
    rw [Store.row_name hrow] at hcontent
    have hchild : r.name ∈ children t.nodes name :=
      mem_children.mpr ⟨h.mem_nodes.mpr ⟨r, hr, rfl⟩, hp⟩
    have hnil : r₀.content = [] := by
      by_contra hne
      exact hempty ⟨by omega, hne⟩
    rw [hnil] at hcontent
    rw [dirContent_eq_nil.mp hcontent.symm] at hchild
    cases hchild

/-- A node removed that has no children, whose name its parent's content loses. -/
theorem removed (h : Shape t) {r₀ : FsRow} (hrow : t.store.row name = some r₀)
    (hempty : ¬ (r₀.isDirectory ≠ 0 ∧ r₀.content ≠ []))
    (hf : FsRow.Stable f)
    (hfcontent : ∀ r ∈ t.store.fs, r.name = getParentName name → r.isDirectory = 1 →
      (f r).content = dirContentDelete r.content name) :
    Shape ⟨(t.store.remove name).update (getParentName name) f, t.nodes.filter (· ≠ name)⟩ := by
  have hchildless := h.childless hrow hempty
  have hnames : ∀ r ∈ (t.store.remove name).fs, NameOk r.name :=
    fun r hr => h.names r (Store.mem_remove.mp hr).1
  have hflags : ∀ r ∈ (t.store.remove name).fs, r.isDirectory = 0 ∨ r.isDirectory = 1 :=
    fun r hr => h.flags r (Store.mem_remove.mp hr).1
  have hparents : ∀ r ∈ (t.store.remove name).fs, getParentName r.name = root ∨
      ∃ p ∈ (t.store.remove name).fs, p.name = getParentName r.name ∧ p.isDirectory = 1 := by
    intro r hr
    have hr' := (Store.mem_remove.mp hr).1
    rcases h.parents r hr' with hroot | ⟨p, hp, hpname, hpdir⟩
    · exact Or.inl hroot
    · refine Or.inr ⟨p, Store.mem_remove.mpr ⟨hp, ?_⟩, hpname, hpdir⟩
      rw [hpname]
      exact hchildless r hr'
  refine ⟨?_, forall_update (P := fun n _ => NameOk n) hf hnames, ?_,
    forall_update (P := fun _ d => d = 0 ∨ d = 1) hf hflags,
    parents_update hf hparents, ?_⟩
  · rw [Store.names_update hf.name]
    exact Store.nodup_remove h.nodup
  · rw [Store.names_update hf.name, ← h.nodes, Store.remove, List.filter_map]
    congr 1
    apply List.filter_congr
    intro r _
    by_cases hr : r.name = name
    · simp [hr]
    · simp [hr]
  · intro d hd hisdir
    obtain ⟨r', hr', rfl⟩ := Store.mem_update.mp hd
    have hr'mem := (Store.mem_remove.mp hr').1
    split_ifs at hisdir ⊢ with hn
    · rw [hf.isDirectory] at hisdir
      rw [hfcontent r' hr'mem hn hisdir, hf.name, h.contents r' hr'mem hisdir, children_filter]
      apply dirContentDelete_dirContent
      intro node hnode
      have hok := h.nodeNames node (mem_children.mp hnode).1
      exact ⟨hok.bar, hok.ne_nil⟩
    · rw [children_filter_of_ne (Ne.symm hn)]
      exact h.contents r' hr'mem hisdir

/-- What `touchParent` writes into the row it was computed from. -/
theorem content_touchParent (strHash : Str → UInt64) {names : List Str}
    (hnames : ∀ n ∈ names, NameOk n) (p r : FsRow) :
    (ServerDb.touchParent strHash (dirContent names) p r).content = dirContent names :=
  textValue_dirContent hnames r

section Step

variable (strHash : Str → UInt64)

/-- A call of `checkAndCreate` that goes through. -/
theorem create (h : Shape t) (hname : NameOk name) {isDir : Bool} {n : UInt64} {st : Store}
    (hends : ServerDb.CreateEnds strHash name isDir t.store (.ret (some n) st)) :
    Shape ⟨st, t.nodes ++ [name]⟩ := by
  cases hends with
  | @top m hrow hroot hm =>
    have hnames : ∀ r ∈ (t.store.create name isDir (UInt64.ofInt m + 1)).fs, NameOk r.name := by
      intro r hr
      rcases Store.mem_create.mp hr with hr | rfl
      · exact h.names r hr
      · exact hname
    have hupdate := update_root hnames (fun r => r)
    rw [← hroot] at hupdate
    rw [← hupdate]
    refine h.created hname hrow (Or.inl hroot) FsRow.stable_id ?_ _ _
    intro r hr hn
    rw [hroot] at hn
    exact absurd hn (h.names r hr).ne_root
  | @nested m p hrow hroot hp hdir hm =>
    have hpmem := Store.row_mem hp
    have hpname := Store.row_name hp
    have hpdir := h.directory hpmem hdir
    have hcontent : dirContentCreate p.content name =
        dirContent (children t.nodes p.name ++ [name]) := by
      rw [h.contents p hpmem hpdir, dirContentCreate_dirContent]
    have hok : ∀ n ∈ children t.nodes p.name ++ [name], NameOk n := by
      intro n hn
      rcases List.mem_append.mp hn with hn | hn
      · exact h.nodeNames n (mem_children.mp hn).1
      · rw [List.mem_singleton] at hn
        rw [hn]
        exact hname
    refine h.created hname hrow (Or.inr ⟨p, hpmem, hpname, hpdir⟩)
      (FsRow.stable_withContent _ _ _) ?_ isDir _
    intro r hr hn _
    have hreq := Store.row_eq h.nodup hr
    rw [hn, hp] at hreq
    obtain rfl := Option.some.inj hreq
    rw [hcontent]
    exact content_touchParent strHash hok p p

/-- A call of `checkAndDelete` that goes through. -/
theorem delete (h : Shape t) {n : UInt64} {st : Store}
    (hends : ServerDb.DeleteEnds strHash name n t.store (.ret true st)) :
    Shape ⟨st, t.nodes.filter (· ≠ name)⟩ := by
  cases hends with
  | top hrow howner hn hempty hroot =>
    have hnames : ∀ r ∈ (t.store.remove name).fs, NameOk r.name :=
      fun r hr => h.names r (Store.mem_remove.mp hr).1
    have hupdate := update_root hnames (fun r => r)
    rw [← hroot] at hupdate
    rw [← hupdate]
    refine h.removed hrow hempty FsRow.stable_id ?_
    intro r hr hn
    rw [hroot] at hn
    exact absurd hn (h.names r hr).ne_root
  | @nested r p hrow howner hn hempty hroot hp hpdir =>
    have hpmem := Store.row_mem hp
    have hcontent : dirContentDelete p.content name =
        dirContent ((children t.nodes p.name).filter (· ≠ name)) := by
      rw [h.contents p hpmem hpdir]
      apply dirContentDelete_dirContent
      intro node hnode
      have hok := h.nodeNames node (mem_children.mp hnode).1
      exact ⟨hok.bar, hok.ne_nil⟩
    have hok : ∀ node ∈ (children t.nodes p.name).filter (· ≠ name), NameOk node := by
      intro node hnode
      exact h.nodeNames node (mem_children.mp (List.mem_filter.mp hnode).1).1
    refine h.removed hrow hempty (FsRow.stable_withContent _ _ _) ?_
    intro r' hr' hn' _
    have hreq := Store.row_eq h.nodup hr'
    rw [hn', hp] at hreq
    obtain rfl := Option.some.inj hreq
    rw [hcontent]
    exact content_touchParent strHash hok p p

/-- The assertions of `checkAndDelete` hold. -/
theorem not_badParent (h : Shape t) {r : FsRow} (hrow : t.store.row name = some r)
    (hroot : getParentName name ≠ root)
    (hbad : ∀ p, t.store.row (getParentName name) = some p → p.isDirectory ≠ 1) : False := by
  have hname := Store.row_name hrow
  rcases h.parents r (Store.row_mem hrow) with htop | ⟨p, hp, hpname, hpdir⟩
  · rw [hname] at htop
    exact hroot htop
  · have hpeq := Store.row_eq h.nodup hp
    rw [hpname, hname] at hpeq
    exact hbad p hpeq hpdir

theorem empty : Shape ⟨.empty, []⟩ where
  nodup := List.nodup_nil
  names _ hr := by cases hr
  nodes := rfl
  flags _ hr := by cases hr
  parents _ hr := by cases hr
  contents _ hd := by cases hd

end Step

end Shape

namespace TreeOk

variable {t : Tree} {name : Str}

section Step

variable (sq : Engine) (strHash : Str → UInt64)

theorem step_create (h : TreeOk t) (hname : NameOk name) {isDir : Bool} {t' : Tree}
    (hstep : Tree.step sq strHash (.checkAndCreate name isDir) t = some t') : TreeOk t' := by
  have hends := ServerDb.checkAndCreate_ends sq strHash h.ready hname isDir
  simp only [Tree.step] at hstep
  cases hrun : ServerDb.checkAndCreate sq strHash name isDir t.store with
  | stop e st =>
    rw [hrun] at hstep
    cases hstep
  | ret r st =>
    rw [hrun] at hstep hends
    cases r with
    | none =>
      cases hstep
      cases hends with
      | _ => exact h
    | some n =>
      cases hstep
      refine (h.shape.create strHash hname hends).treeOk ?_
      cases hends with
      | top hrow _ _ => exact h.ready.create hname hrow isDir _
      | nested hrow _ hp _ _ =>
        have hquote := ServerDb.no_quote_cons (h.ready.contents _ (Store.row_mem hp)) hname
        exact (h.ready.create hname hrow isDir _).withContent hquote _ _

theorem step_delete (h : TreeOk t) (hname : NameOk name) {n : UInt64} {t' : Tree}
    (hstep : Tree.step sq strHash (.checkAndDelete name n) t = some t') : TreeOk t' := by
  have hends := ServerDb.checkAndDelete_ends sq strHash h.ready hname n
  simp only [Tree.step] at hstep
  cases hrun : ServerDb.checkAndDelete sq strHash name n t.store with
  | stop e st =>
    rw [hrun] at hstep
    cases hstep
  | ret r st =>
    rw [hrun] at hstep hends
    cases r with
    | false =>
      cases hstep
      cases hends with
      | _ => exact h
    | true =>
      cases hstep
      refine (h.shape.delete strHash hends).treeOk ?_
      cases hends with
      | top _ _ _ _ _ => exact h.ready.remove
      | nested _ _ _ _ _ hp _ =>
        have hquote := ServerDb.no_quote_delete (h.ready.contents _ (Store.row_mem hp)) name
        exact h.ready.remove.withContent hquote _ _

theorem init : TreeOk ⟨.empty, []⟩ := Shape.empty.treeOk Store.ready_empty

theorem step (h : TreeOk t) {op : DbOp} (hok : Tree.Allowed t op) {t' : Tree}
    (hstep : Tree.step sq strHash op t = some t') : TreeOk t' := by
  cases op with
  | checkAndCreate name isDir => exact step_create sq strHash h (checkName_iff.mp hok) hstep
  | checkAndDelete name n => exact step_delete sq strHash h (checkName_iff.mp hok) hstep
  | checkAndOpen name =>
    simp only [Tree.step, ServerDb.checkAndOpen_eq sq (checkName_iff.mp hok), Tree.after] at hstep
    cases hstep
    exact h
  | checkAndRead name n =>
    obtain ⟨r, hr⟩ : ∃ r, ServerDb.checkAndRead sq name n t.store = .ret r t.store :=
      ServerDb.checkAndRead_store sq (checkName_iff.mp hok) n
    simp only [Tree.step, hr, Tree.after] at hstep
    cases hstep
    exact h
  | checkAndUpdate name n content =>
    obtain ⟨hname, hquote, hfile⟩ := hok
    have hends := ServerDb.checkAndUpdate_ends sq strHash h.ready (checkName_iff.mp hname) n hquote
    simp only [Tree.step] at hstep
    cases hrun : ServerDb.checkAndUpdate sq strHash name n content t.store with
    | stop e st =>
      rw [hrun] at hstep
      cases hstep
    | ret r st =>
      rw [hrun] at hstep hends
      cases hends with
      | refused hwhy =>
        cases hstep
        exact h
      | updated hrow hn =>
        cases hstep
        refine (h.shape.update (FsRow.stable_withContent _ _ _) ?_).treeOk
          (h.ready.withContent hquote _ _)
        intro r hr hrname hdir
        rw [hfile r hr hrname] at hdir
        cases hdir
  | testAndSetLockOwner name n clientId =>
    obtain ⟨hname, hquote⟩ := hok
    have hends := ServerDb.testAndSetLockOwner_ends sq h.ready (checkName_iff.mp hname) n hquote
    simp only [Tree.step] at hstep
    cases hrun : ServerDb.testAndSetLockOwner sq name n clientId t.store with
    | stop e st =>
      rw [hrun] at hstep
      cases hstep
    | ret r st =>
      rw [hrun] at hstep hends
      cases hends with
      | refused hwhy =>
        cases hstep
        exact h
      | locked hrow hn hfree =>
        cases hstep
        exact (h.shape.update (FsRow.stable_withOwner _ _) fun _ _ _ _ => rfl).treeOk
          (h.ready.withOwner hquote _)
  | resetLockOwner name n =>
    have hends := ServerDb.resetLockOwner_ends sq h.ready (checkName_iff.mp hok) n
    simp only [Tree.step] at hstep
    cases hrun : ServerDb.resetLockOwner sq name n t.store with
    | stop e st =>
      rw [hrun] at hstep
      cases hstep
    | ret r st =>
      rw [hrun] at hstep hends
      cases hends with
      | refused hwhy =>
        cases hstep
        exact h
      | unlocked hrow hn =>
        cases hstep
        exact (h.shape.update FsRow.stable_withoutOwner fun _ _ _ _ => rfl).treeOk
          h.ready.withoutOwner
  | getStates =>
    cases hstep
    exact h

end Step

end TreeOk

/-- What holds of the tree along a run: the content of a directory lists exactly
    its children in the order of their creation, every parent exists, and a free
    directory can be deleted just when it has no children. -/
structure DirectoryTree (sq : Engine) (strHash : Str → UInt64) (t : Tree) : Prop where
  nodes : t.store.fs.map FsRow.name = t.nodes
  nodup : t.nodes.Nodup
  content : ∀ d ∈ t.store.fs, d.isDirectory ≠ 0 →
    d.content = (children t.nodes d.name).flatMap ('|' :: ·)
  parent : ∀ r ∈ t.store.fs, getParentName r.name = root ∨
    ∃ p ∈ t.store.fs, p.name = getParentName r.name ∧ p.isDirectory ≠ 0
  /-- The assertions on the parent's row in `checkAndDelete` never fail. -/
  assertion : ∀ name n st', checkName name = true →
    ServerDb.checkAndDelete sq strHash name n t.store ≠ .stop .assertion st'
  delete : ∀ d ∈ t.store.fs, d.isDirectory ≠ 0 → d.lockOwner = noOwner →
    ((∃ st', ServerDb.checkAndDelete sq strHash d.name (UInt64.ofInt d.instanceNumber) t.store =
      .ret true st') ↔ children t.nodes d.name = [])

theorem TreeOk.directoryTree (sq : Engine) (strHash : Str → UInt64) {t : Tree} (h : TreeOk t) :
    DirectoryTree sq strHash t := by
  have hflag : ∀ r ∈ t.store.fs, r.isDirectory ≠ 0 → r.isDirectory = 1 :=
    fun r hr => h.shape.directory hr
  refine ⟨h.nodes, ?_, ?_, ?_, ?_, ?_⟩
  · rw [← h.nodes]
    exact h.ready.nodup
  · intro d hd hdir
    exact h.contents d hd (hflag d hd hdir)
  · intro r hr
    rcases h.parents r hr with hroot | ⟨p, hp, hpname, hpdir⟩
    · exact Or.inl hroot
    · exact Or.inr ⟨p, hp, hpname, by omega⟩
  · intro name n st' hname hrun
    have hends := ServerDb.checkAndDelete_ends sq strHash h.ready (checkName_iff.mp hname) n
    rw [hrun] at hends
    cases hends with
    | badParent hrow hroot hbad => exact h.shape.not_badParent hrow hroot hbad
  · intro d hd hdir hfree
    have hrow := Store.row_eq h.ready.nodup hd
    have hcontent := h.contents d hd (hflag d hd hdir)
    have hends := ServerDb.checkAndDelete_ends sq strHash h.ready (h.ready.names d hd)
      (UInt64.ofInt d.instanceNumber)
    constructor
    · rintro ⟨st', hrun⟩
      rw [hrun] at hends
      have hnil : ∀ r, t.store.row d.name = some r → ¬ (r.isDirectory ≠ 0 ∧ r.content ≠ []) →
          d.content = [] := by
        intro r hr hempty
        rw [hrow] at hr
        obtain rfl := Option.some.inj hr
        by_contra hne
        exact hempty ⟨hdir, hne⟩
      have hempty : d.content = [] := by
        cases hends with
        | top hr _ _ hempty _ => exact hnil _ hr hempty
        | nested hr _ _ hempty _ _ _ => exact hnil _ hr hempty
      rw [hempty] at hcontent
      exact dirContent_eq_nil.mp hcontent.symm
    · intro hchildren
      have hempty : d.content = [] := by
        rw [hcontent, hchildren]
        rfl
      generalize ServerDb.checkAndDelete sq strHash d.name (UInt64.ofInt d.instanceNumber)
        t.store = o at hends
      cases hends with
      | absent hnone =>
        rw [hrow] at hnone
        cases hnone
      | refused hr hwhy =>
        rw [hrow] at hr
        obtain rfl := Option.some.inj hr
        rcases hwhy with howner | hn | ⟨_, hne⟩
        · exact absurd hfree howner
        · exact absurd rfl hn
        · exact absurd hempty hne
      | badParent hr hroot hbad => exact (h.shape.not_badParent hr hroot hbad).elim
      | top hr _ _ _ _ => exact ⟨_, rfl⟩
      | nested hr _ _ _ _ _ _ => exact ⟨_, rfl⟩

/-- Along every run of `ServerDB` calls from the empty store the two forms of
    the tree agree. -/
theorem directoryTree_reachable (sq : Engine) (strHash : Str → UInt64) (t : Tree)
    (h : (Tree.lts sq strHash).Reach Tree.Allowed t) : DirectoryTree sq strHash t := by
  have hok : TreeOk t := by
    refine h.invariant ?_ ?_
    · rintro t rfl
      exact TreeOk.init
    · intro t t' op _ hok hallowed hstep
      exact hok.step sq strHash hallowed hstep
  exact hok.directoryTree sq strHash

/-- Nested directories, one of which is given up again. -/
def grove : List DbOp :=
  [.checkAndCreate "/a".toList true, .checkAndCreate "/a/b".toList true,
    .checkAndCreate "/a/bc".toList false, .checkAndUpdate "/a/bc".toList 3 "x".toList,
    .checkAndDelete "/a".toList 1, .checkAndDelete "/a/b".toList 2]

theorem directoryTree_grove :
    ∃ t, (Tree.lts .refusing fun _ => 0).exec Tree.Allowed grove ⟨.empty, []⟩ = some t ∧
      t.nodes = ["/a".toList, "/a/bc".toList] ∧ DirectoryTree .refusing (fun _ => 0) t := by
  have hrun : ∃ t, (Tree.lts .refusing fun _ => 0).exec Tree.Allowed grove ⟨.empty, []⟩ = some t ∧
      t.nodes = ["/a".toList, "/a/bc".toList] := by
    refine ⟨_, rfl, ?_⟩
    decide
  obtain ⟨t, ht, hnodes⟩ := hrun
  have hreach := Lts.Reach.exec (.init rfl) ht
  exact ⟨t, ht, hnodes, directoryTree_reachable .refusing (fun _ => 0) t hreach⟩

end SimpleChubby
