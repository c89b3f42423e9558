import SimpleChubby.ServerDb.Incarnations
import SimpleChubby.ServerDb.Locks

/-!
# Generation numbers

`content_generation_number` is 0 in a new row and is stepped on whenever the
content of the row is written: that of a file by `checkAndUpdate`, that of a
directory also when `checkAndCreate` and `checkAndDelete` add and remove a child.
It is written with `%d`, so the step from 2^31 - 1 leads to -2^31.
-/

namespace SimpleChubby

open SqlText

/-- The stored `content_generation_number` of a node. -/
def Store.generation (st : Store) (name : Str) : Option Int :=
  (st.row name).map FsRow.contentGenerationNumber

/-- The last generation number: there is no greater one after it. -/
def lastGeneration : Int := 2 ^ 31 - 1

/-- The number that is written over `n`. -/
def nextGeneration (n : Int) : Int := printfD (UInt64.ofInt n + 1)

/-- A node can be made under the name: there is none, and its parent is a directory. -/
def Store.Admits (st : Store) (name : Str) : Prop :=
  st.row name = none ∧ (getParentName name = root ∨
    ∃ p ∈ st.row (getParentName name), p.isDirectory ≠ 0)

/-- The node has the instance number, nobody owns its lock, and it is no directory
    with children. -/
def Store.Removable (st : Store) (name : Str) (n : UInt64) : Prop :=
  ∃ r ∈ st.row name, UInt64.ofInt r.instanceNumber = n ∧ r.lockOwner = noOwner ∧
    ¬ (r.isDirectory ≠ 0 ∧ r.content ≠ [])

instance (st : Store) (name : Str) : Decidable (st.Admits name) :=
  inferInstanceAs (Decidable (st.row name = none ∧ _))

instance (st : Store) (name : Str) (n : UInt64) : Decidable (st.Removable name n) :=
  inferInstanceAs (Decidable (∃ r ∈ st.row name, _))

/-! ## Numbers of 32 bits -/

theorem printfD_bounds (n : UInt64) : -2 ^ 31 ≤ printfD n ∧ printfD n < 2 ^ 31 :=
  ⟨Int32.le_toInt _, Int32.toInt_lt _⟩

theorem printfD_eq (n : UInt64) : printfD n = Int.bmod n.toNat (2 ^ 32) := by
  unfold printfD
  show n.toUInt32.toBitVec.toInt = _
  rw [BitVec.toInt_eq_toNat_bmod]
  show Int.bmod (n.toUInt32.toNat : Int) _ = _
  rw [UInt64.toNat_toUInt32, Int.natCast_emod]
  exact Int.emod_bmod _ _

/-- The next number is greater, except after the last. -/
theorem lt_nextGeneration_iff {n : Int} (hlow : -2 ^ 31 ≤ n) (hhigh : n < 2 ^ 31) :
    n < nextGeneration n ↔ n ≠ lastGeneration := by
  unfold nextGeneration lastGeneration
  rw [printfD_eq, UInt64.toNat_add]
  simp only [UInt64.ofInt, UInt64.toNat_ofNat', UInt64.toNat_one, Int.bmod]
  omega

/-! ## The numbers of the rows -/

section Rows

variable {st : Store} {name g : Str}

theorem Store.generation_of_row {r : FsRow} (h : st.row name = some r) :
    st.generation name = some r.contentGenerationNumber := by
  unfold Store.generation
  rw [h]
  rfl

theorem Store.generation_update_same {f : FsRow → FsRow} (hname : ∀ r, (f r).name = r.name)
    (hf : ∀ r, (f r).contentGenerationNumber = r.contentGenerationNumber) :
    (st.update name f).generation = st.generation := by
  funext g
  unfold Store.generation
  rw [Store.row_update hname]
  by_cases hg : g = name
  · rw [if_pos hg]
    cases st.row g with
    | none => rfl
    | some r => exact congrArg some (hf r)
  · rw [if_neg hg]

theorem Store.generation_withContent (h : st.generation name ≠ none) (content : Str)
    (generation checksum : UInt64) :
    (st.update name (FsRow.withContent content generation checksum)).generation =
      Function.update st.generation name (some (printfD generation)) := by
  funext g
  unfold Store.generation at h ⊢
  rw [Store.row_update (FsRow.stable_withContent _ _ _).name]
  by_cases hg : g = name
  · subst hg
    rw [if_pos rfl, Function.update_self]
    cases hrow : st.row g with
    | none =>
      rw [hrow] at h
      exact absurd rfl h
    | some r => rfl
  · rw [if_neg hg, Function.update_of_ne hg]

theorem Store.generation_create (hrow : st.row name = none) (isDir : Bool) (n : UInt64) :
    (st.create name isDir n).generation = Function.update st.generation name (some 0) := by
  funext g
  unfold Store.generation
  rw [Store.row_create hrow]
  by_cases hg : g = name
  · subst hg
    simp [Store.newRow]
  · simp [hg]

theorem Store.generation_remove :
    (st.remove name).generation = Function.update st.generation name none := by
  funext g
  unfold Store.generation
  rw [Store.row_remove]
  by_cases hg : g = name
  · subst hg
    simp
  · simp [hg]

end Rows

/-! ## What the calls do to them -/

/-- The generation numbers after the node of the name is made or deleted: those of
    `mid`, and that of the parent is stepped on. -/
inductive StepsParent (before mid : Str → Option Int) (name : Str) : (Str → Option Int) → Prop
  | top : getParentName name = root → StepsParent before mid name mid
  | nested {n : Int} : getParentName name ≠ root → before (getParentName name) = some n →
      StepsParent before mid name
        (Function.update mid (getParentName name) (some (nextGeneration n)))

/-- How the calls end that write no content. -/
inductive GenerationKeeps {α : Type} (st : Store) : Outcome Fault Store α → Prop
  | kept {r : α} {db : Store} : db.generation = st.generation → GenerationKeeps st (.ret r db)

/-- How `checkAndCreate` ends. -/
inductive GenerationCreates (name : Str) (st : Store) : Outcome Fault Store (Option UInt64) → Prop
  | refused {db : Store} : ¬ st.Admits name → db.generation = st.generation →
      GenerationCreates name st (.ret none db)
  | made {n : UInt64} {db : Store} : st.Admits name →
      StepsParent st.generation (Function.update st.generation name (some 0)) name db.generation →
      GenerationCreates name st (.ret (some n) db)

/-- How `checkAndDelete` ends. -/
inductive GenerationDeletes (name : Str) (n : UInt64) (st : Store) :
    Outcome Fault Store Bool → Prop
  | crashed {db : Store} : GenerationDeletes name n st (.stop .assertion db)
  | refused {db : Store} : ¬ st.Removable name n → db.generation = st.generation →
      GenerationDeletes name n st (.ret false db)
  | deleted {db : Store} : st.Removable name n →
      StepsParent st.generation (Function.update st.generation name none) name db.generation →
      GenerationDeletes name n st (.ret true db)

/-- How `checkAndUpdate` ends. -/
inductive GenerationWrites (name : Str) (n : UInt64) (st : Store) : Outcome Fault Store Bool → Prop
  | refused {db : Store} : st.number name ≠ some n → db.generation = st.generation →
      GenerationWrites name n st (.ret false db)
  | written {m : Int} {db : Store} : st.number name = some n → st.generation name = some m →
      db.generation = Function.update st.generation name (some (nextGeneration m)) →
      GenerationWrites name n st (.ret true db)

/-- How `resetLockOwner` ends: the node is as if its lock were free, or it has another number. -/
inductive GenerationFrees (name : Str) (n : UInt64) (st : Store) : Outcome Fault Store Bool → Prop
  | refused {db : Store} : st.number name ≠ some n → db = st →
      GenerationFrees name n st (.ret false db)
  | freed {db : Store} : db = st.update name FsRow.withoutOwner →
      GenerationFrees name n st (.ret true db)

section Calls

variable (sq : Engine) (strHash : Str → UInt64) {st : Store} {name : Str}

theorem Store.generation_touchParent {db : Store} {mid : Str → Option Int} {parent : Str}
    (hmid : db.generation = mid) (hpresent : mid parent ≠ none) (r : FsRow) (content : Str) :
    (db.update parent (ServerDb.touchParent strHash content r)).generation =
      Function.update mid parent (some (nextGeneration r.contentGenerationNumber)) := by
  subst hmid
  exact Store.generation_withContent hpresent content _ _

theorem generation_checkAndCreate (hst : st.Ready) (hname : NameOk name) (isDir : Bool) :
    GenerationCreates name st ((leaderDb sq strHash).checkAndCreate name isDir st) := by
  rw [leaderDb_checkAndCreate]
  have hends := ServerDb.checkAndCreate_ends sq strHash hst hname isDir
  generalize ServerDb.checkAndCreate sq strHash name isDir st = o at hends
  cases hends with
  | present hrow =>
    refine .refused (fun hadmits => ?_) rfl
    rw [hadmits.1] at hrow
    cases hrow
  | noParent _ hroot hp =>
    refine .refused (fun hadmits => ?_) rfl
    rcases hadmits.2 with hcon | ⟨p, hp', _⟩
    · exact hroot hcon
    · rw [hp] at hp'
      cases hp'
  | fileParent _ hroot hp hfile =>
    refine .refused (fun hadmits => ?_) rfl
    rcases hadmits.2 with hcon | ⟨p, hp', hdir⟩
    · exact hroot hcon
    · obtain rfl := Option.some.inj (hp.symm.trans hp')
      exact hdir hfile
  | top hrow hroot _ =>
    refine .made ⟨hrow, Or.inl hroot⟩ ?_
    rw [Store.generation_create hrow]
    exact .top hroot
  | nested hrow hroot hp hdir _ =>
    refine .made ⟨hrow, Or.inr ⟨_, hp, hdir⟩⟩ ?_
    have hparent := Store.generation_of_row hp
    have hpresent : Function.update st.generation name (some 0) (getParentName name) ≠ none := by
      rw [Function.update_of_ne (getParentName_ne hname), hparent]
      exact Option.some_ne_none _
    rw [Store.generation_touchParent strHash (Store.generation_create hrow isDir _) hpresent]
    exact .nested hroot hparent

theorem generation_checkAndOpen (hname : NameOk name) :
    (leaderDb sq strHash).checkAndOpen name st =
      .ret ((st.number name).map wire) st := by
  rw [leaderDb_checkAndOpen, ServerDb.checkAndOpen_eq sq hname]
  rfl

theorem generation_checkAndDelete (hst : st.Ready) (hname : NameOk name) (n : UInt64) :
    GenerationDeletes name (wire n) st ((leaderDb sq strHash).checkAndDelete name n st) := by
  rw [leaderDb_checkAndDelete]
  have hends := ServerDb.checkAndDelete_ends sq strHash hst hname (wire n)
  generalize ServerDb.checkAndDelete sq strHash name (wire n) st = o at hends
  cases hends with
  | absent hrow =>
    refine .refused ?_ rfl
    rintro ⟨r, hr, _⟩
    rw [hrow] at hr
    cases hr
  | refused hrow hwhy =>
    refine .refused ?_ rfl
    rintro ⟨r, hr, hn, howner, hempty⟩
    obtain rfl := Option.some.inj (hrow.symm.trans hr)
    rcases hwhy with hwhy | hwhy | hwhy
    · exact hwhy howner
    · exact hwhy hn
    · exact hempty hwhy
  | badParent _ _ _ => exact .crashed
  | top hrow howner hn hempty hroot =>
    refine .deleted ⟨_, hrow, hn, howner, hempty⟩ ?_
    rw [Store.generation_remove]
    exact .top hroot
  | nested hrow howner hn hempty hroot hp hpdir =>
    refine .deleted ⟨_, hrow, hn, howner, hempty⟩ ?_
    have hparent := Store.generation_of_row hp
    have hpresent : Function.update st.generation name none (getParentName name) ≠ none := by
      rw [Function.update_of_ne (getParentName_ne hname), hparent]
      exact Option.some_ne_none _
    rw [Store.generation_touchParent strHash Store.generation_remove hpresent]
    exact .nested hroot hparent

theorem generation_checkAndUpdate (hst : st.Ready) (hname : NameOk name) (n : UInt64)
    {content : Str} (hquote : '"' ∉ content) :
    GenerationWrites name (wire n) st
      ((leaderDb sq strHash).checkAndUpdate name n content st) := by
  rw [leaderDb_checkAndUpdate]
  have hends := ServerDb.checkAndUpdate_ends sq strHash hst hname (wire n) hquote
  generalize ServerDb.checkAndUpdate sq strHash name (wire n) content st = o at hends
  cases hends with
  | refused hother =>
    refine .refused (fun hnumber => ?_) rfl
    obtain ⟨r, hr, hn⟩ := Option.map_eq_some_iff.mp hnumber
    exact hother r hr hn
  | @updated r hrow hn =>
    have hgeneration := Store.generation_of_row hrow
    have hpresent : st.generation name ≠ none := by
      rw [hgeneration]
      exact Option.some_ne_none _
    refine .written (Option.map_eq_some_iff.mpr ⟨r, hrow, hn⟩) hgeneration ?_
    exact Store.generation_touchParent strHash rfl hpresent r content

theorem generation_checkAndRead (hname : NameOk name) (n : UInt64) :
    GenerationKeeps st ((leaderDb sq strHash).checkAndRead name n st) := by
  obtain ⟨r, hr⟩ : ∃ r, ServerDb.checkAndRead sq name (wire n) st = .ret r st :=
    ServerDb.checkAndRead_store sq hname (wire n)
  rw [leaderDb_checkAndRead, hr]
  exact .kept rfl

theorem generation_testAndSetLockOwner (hst : st.Ready) (hname : NameOk name) (n : UInt64)
    {owner : Str} (hquote : '"' ∉ owner) :
    GenerationKeeps st ((leaderDb sq strHash).testAndSetLockOwner name n owner st) := by
  rw [leaderDb_testAndSetLockOwner]
  have hends := ServerDb.testAndSetLockOwner_ends sq hst hname (wire n) hquote
  generalize ServerDb.testAndSetLockOwner sq name (wire n) owner st = o at hends
  cases hends with
  | refused _ => exact .kept rfl
  | locked _ _ _ =>
    exact .kept (Store.generation_update_same (FsRow.stable_withOwner _ _).name fun _ => rfl)

theorem generation_resetLockOwner (hst : st.Ready) (hname : NameOk name) (n : UInt64) :
    GenerationFrees name (wire n) st ((leaderDb sq strHash).resetLockOwner name n st) := by
  rw [leaderDb_resetLockOwner]
  have hends := ServerDb.resetLockOwner_ends sq hst hname (wire n)
  generalize ServerDb.resetLockOwner sq name (wire n) st = o at hends
  cases hends with
  | refused hother =>
    refine .refused (fun hnumber => ?_) rfl
    obtain ⟨r, hr, hn⟩ := Option.map_eq_some_iff.mp hnumber
    exact hother r hr hn
  | unlocked _ _ => exact .freed rfl

end Calls

end SimpleChubby
