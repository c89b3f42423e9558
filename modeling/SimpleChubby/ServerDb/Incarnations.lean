import Mathlib
import SimpleChubby.ServerDb.Calls

/-!
# Instance numbers

The counter of a store, the number `checkAndCreate` returns, the number in the
row of the node and the one a call carries go through `uint64_t`, `%d` and a
signed column. Beside the store runs a census of the nodes made on it, with the
numbers returned for them, and of those deleted since.
-/

namespace SimpleChubby

open SqlText

/-- A store, the nodes made on it with the numbers returned for them, the newest
    first, and those of them that have been deleted. -/
structure Census where
  store : Store
  made : List (Str × UInt64)
  gone : List (Str × UInt64)
  deriving DecidableEq

/-- The handle a call carries: a name and an instance number. -/
def DbOp.handle : DbOp → Option (Str × UInt64)
  | .checkAndDelete name n => some (name, n)
  | .checkAndRead name n => some (name, n)
  | .checkAndUpdate name n _ => some (name, n)
  | .testAndSetLockOwner name n _ => some (name, n)
  | .resetLockOwner name n => some (name, n)
  | _ => none

namespace Census

/-- The census of a new store. -/
def first : Census := ⟨.empty, [], []⟩

/-- Note what a call has made or deleted. -/
def record (c : Census) (st : Store) : DbOp → DbResult → Census
  | .checkAndCreate name _, .number (some n) => ⟨st, (name, n) :: c.made, c.gone⟩
  | .checkAndDelete name _, .done true =>
    ⟨st, c.made, c.made.filter (fun h => h.1 == name) ++ c.gone⟩
  | _, _ => ⟨st, c.made, c.gone⟩

/-- The census after a call; a failed assertion ends the process. -/
def step (sq : Engine) (strHash : Str → UInt64) (op : DbOp) (c : Census) : Option Census :=
  match op.run sq strHash c.store with
  | .ret res st => some (c.record st op res)
  | .stop .exception st => some { c with store := st }
  | .stop .assertion _ => none

end Census

/-- The runs of calls on a new store, with the census. -/
def ServerDb.census (sq : Engine) (strHash : Str → UInt64) : Lts Census DbOp where
  init c := c = .first
  step := Census.step sq strHash

/-- The call is to make a node: there is none of its name, and its parent is a directory. -/
def Makes (st : Store) : DbOp → Prop
  | .checkAndCreate name _ => st.row name = none ∧
      (getParentName name = root ∨ ∃ p ∈ st.row (getParentName name), p.isDirectory ≠ 0)
  | _ => False

instance (st : Store) : ∀ op, Decidable (Makes st op)
  | .checkAndCreate name _ => inferInstanceAs (Decidable (st.row name = none ∧
      (getParentName name = root ∨ ∃ p ∈ st.row (getParentName name), p.isDirectory ≠ 0)))
  | .checkAndOpen _ | .checkAndDelete _ _ | .checkAndRead _ _ | .checkAndUpdate _ _ _
  | .testAndSetLockOwner _ _ _ | .resetLockOwner _ _ | .getStates =>
    inferInstanceAs (Decidable False)

/-- The strings of the call stay inside their tokens, and `%d` prints the number
    of a node that it makes as it is. -/
def Numbered (c : Census) (op : DbOp) : Prop :=
  Contained c.store op ∧
    (Makes c.store op → ∀ m ∈ c.store.maxInstanceNumber, m + 1 < 2 ^ 31)

instance (c : Census) (op : DbOp) : Decidable (Numbered c op) := by
  unfold Numbered
  infer_instance

/-- Nothing but the instance number could make a method refuse the node: it is
    not locked where the call needs it free, and a directory to be deleted is
    empty. -/
def Unhindered (st : Store) : DbOp → Prop
  | .checkAndDelete name _ => ∀ r ∈ st.row name, r.lockOwner = noOwner ∧
      (r.isDirectory = 0 ∨ r.content = []) ∧ (getParentName name = root ∨
        ∃ p ∈ st.row (getParentName name), p.isDirectory = 1)
  | .testAndSetLockOwner name _ _ => ∀ r ∈ st.row name, r.lockOwner = noOwner
  | _ => True

section Law

variable (sq : Engine) (strHash : Str → UInt64)

/-- The call succeeds. -/
def Accepted (st : Store) (op : DbOp) : Prop :=
  ∃ st', op.run sq strHash st = .ret (.done true) st' ∨
    ∃ r, op.run sq strHash st = .ret (.contents (some r)) st'

/-- The call returns `false` and leaves the store alone. -/
def Refused (st : Store) (op : DbOp) : Prop :=
  op.run sq strHash st = .ret (.done false) st ∨ op.run sq strHash st = .ret (.contents none) st

/-- Instance numbers identify the nodes made: they increase; a node that has not
    been deleted since is reported with its number and accepted by every call
    that carries it; and no call with the number of a deleted one is accepted. -/
structure Identifies (c : Census) : Prop where
  increasing : c.made.Pairwise fun h h' => h'.2 < h.2
  opened : ∀ h ∈ c.made, h ∉ c.gone →
    ServerDb.checkAndOpen sq h.1 c.store = .ret (some h.2) c.store
  read : ∀ h ∈ c.made, h ∉ c.gone → ∃ content metaData,
    ServerDb.checkAndRead sq h.1 h.2 c.store = .ret (some (content, metaData)) c.store ∧
      metaData.instanceNumber = h.2
  accepted : ∀ h ∈ c.made, h ∉ c.gone → ∀ op : DbOp, op.handle = some h →
    Contained c.store op → Unhindered c.store op → Accepted sq strHash c.store op
  refused : ∀ h ∈ c.gone, ∀ op : DbOp, op.handle = some h → Refused sq strHash c.store op

end Law

/-! ## Numbers -/

/-- A number that is not negative survives the conversion to `uint64_t`. -/
theorem toNat_ofInt {m : Int} (h : 0 ≤ m) (hlt : m < 2 ^ 64) :
    ((UInt64.ofInt m).toNat : Int) = m := by
  simp [UInt64.ofInt]
  omega

/-- `%d` prints a number below 2^31 as it is. -/
theorem printfD_of_lt {n : UInt64} (h : n.toNat < 2 ^ 31) : printfD n = n.toNat := by
  have hlow : n.toUInt32.toNat = n.toNat := by
    simp
    omega
  unfold printfD
  show n.toUInt32.toBitVec.toInt = _
  rw [BitVec.toInt_eq_toNat_of_lt]
  · exact congrArg Int.ofNat hlow
  · show 2 * n.toUInt32.toNat < _
    omega

/-- The number after `m` is the one that is printed and read back. -/
theorem next_number {m : Int} (h : 0 ≤ m) (hlt : m + 1 < 2 ^ 31) :
    ((UInt64.ofInt m + 1).toNat : Int) = m + 1 ∧ printfD (UInt64.ofInt m + 1) = m + 1 ∧
      UInt64.ofInt (printfD (UInt64.ofInt m + 1)) = UInt64.ofInt m + 1 := by
  have hm := toNat_ofInt h (by omega)
  have hnext : ((UInt64.ofInt m + 1).toNat : Int) = m + 1 := by
    rw [UInt64.toNat_add]
    simp only [UInt64.toNat_one]
    omega
  have hprint : printfD (UInt64.ofInt m + 1) = m + 1 := by
    rw [printfD_of_lt (by omega), hnext]
  refine ⟨hnext, hprint, ?_⟩
  rw [hprint, ← UInt64.toNat_inj]
  have hback := toNat_ofInt (m := m + 1) (by omega) (by omega)
  omega

/-! ## The numbers of the rows -/

/-- The instance number in the row of a node. -/
def Store.number (st : Store) (name : Str) : Option UInt64 :=
  (st.row name).map fun r => UInt64.ofInt r.instanceNumber

section Number

variable {st : Store} {name : Str}

theorem Store.number_update {f : FsRow → FsRow} (hf : FsRow.Stable f) :
    (st.update name f).number = st.number := by
  funext g
  unfold Store.number
  rw [Store.row_update hf.name]
  by_cases hg : g = name
  · rw [if_pos hg]
    cases st.row g with
    | none => rfl
    | some r => simp [hf.instanceNumber]
  · rw [if_neg hg]

theorem Store.number_create (hrow : st.row name = none) (isDir : Bool) (n : UInt64) :
    (st.create name isDir n).number =
      Function.update st.number name (some (UInt64.ofInt (printfD n))) := by
  funext g
  unfold Store.number
  rw [Store.row_create hrow]
  by_cases hg : g = name
  · subst hg
    simp [Store.newRow]
  · simp [hg]

theorem Store.number_remove : (st.remove name).number = Function.update st.number name none := by
  funext g
  unfold Store.number
  rw [Store.row_remove]
  by_cases hg : g = name
  · subst hg
    simp
  · simp [hg]

end Number

/-! ## One call -/

/-- What a call does to the numbers of the rows and to the census. -/
inductive CensusStep (c : Census) : Census → Prop
  | other {st : Store} : st.number = c.store.number →
      st.maxInstanceNumber = c.store.maxInstanceNumber → CensusStep c ⟨st, c.made, c.gone⟩
  | made {st : Store} {name : Str} {m : Int} : Plain name → c.store.number name = none →
      c.store.maxInstanceNumber = some m → m + 1 < 2 ^ 31 →
      st.number = Function.update c.store.number name
        (some (UInt64.ofInt (printfD (UInt64.ofInt m + 1)))) →
      st.maxInstanceNumber = some (printfD (UInt64.ofInt m + 1)) →
      CensusStep c ⟨st, (name, UInt64.ofInt m + 1) :: c.made, c.gone⟩
  | gone {st : Store} {name : Str} : st.number = Function.update c.store.number name none →
      st.maxInstanceNumber = c.store.maxInstanceNumber →
      CensusStep c ⟨st, c.made, c.made.filter (fun h => h.1 == name) ++ c.gone⟩

section Step

variable {sq : Engine} {strHash : Str → UInt64} {c c' : Census} {op : DbOp}

/-- A row changed by an update that leaves the nodes what they are. -/
theorem CensusStep.update (c : Census) (name : Str) {f : FsRow → FsRow} (hf : FsRow.Stable f) :
    CensusStep c ⟨c.store.update name f, c.made, c.gone⟩ :=
  .other (Store.number_update hf) rfl

theorem census_step (hst : c.store.Sound) (hok : Numbered c op)
    (h : Census.step sq strHash op c = some c') : c'.store.Sound ∧ CensusStep c c' := by
  obtain ⟨hop, hsmall⟩ := hok
  have hends : CallEnds strHash c.store op (op.run sq strHash c.store) :=
    call_ends hst.idle hst.counter hop
  unfold Census.step at h
  generalize op.run sq strHash c.store = o at h hends
  cases o with
  | stop e st =>
    -- a contained call stops only in the assertions of a delete
    cases hends with
    | crashed => cases h
  | ret res st =>
    have hsound : st.Sound := hends.sound hop hst rfl
    obtain rfl := Option.some.inj h
    cases hends with
    | @created name isDir m f hrow hparent hm hchange =>
      refine ⟨hsound, .made (m := m) hop.1 ?_ hm (hsmall ⟨hrow, hparent⟩ m hm) ?_ ?_⟩
      · simp [Store.number, hrow]
      · rw [Store.number_update hchange.stable, Store.number_create hrow]
      · simp [Store.update, Store.updateWhere, Store.create, hm]
    | deleted hrow hn hchange =>
      refine ⟨hsound, .gone ?_ rfl⟩
      rw [Store.number_update hchange.stable, Store.number_remove]
    | updated => exact ⟨hsound, .update c _ (FsRow.stable_withText _ _ _)⟩
    | locked => exact ⟨hsound, .update c _ (FsRow.stable_withOwnerText _ _)⟩
    | unlocked => exact ⟨hsound, .update c _ FsRow.stable_withoutOwner⟩
    | _ => exact ⟨hsound, .other rfl rfl⟩

end Step

/-! ## Every run -/

/-- What ties the census to the store: the counter bounds the numbers returned,
    which increase; the row of a node that is not gone has its number, and no row
    has the number of one that is gone. -/
structure Census.Ok (c : Census) : Prop where
  sound : c.store.Sound
  counter : ∃ m, c.store.maxInstanceNumber = some m ∧ 0 ≤ m ∧ m < 2 ^ 31 ∧
    ∀ h ∈ c.made, (h.2.toNat : Int) ≤ m
  increasing : c.made.Pairwise fun h h' => h'.2 < h.2
  named : ∀ h ∈ c.made, Plain h.1
  alive : ∀ h ∈ c.made, h ∉ c.gone → c.store.number h.1 = some h.2
  gone : ∀ h ∈ c.gone, h ∈ c.made ∧ c.store.number h.1 ≠ some h.2

theorem Census.ok_first : Census.first.Ok where
  sound := Store.sound_empty
  counter := ⟨0, rfl, by decide, by decide, fun h hh => by cases hh⟩
  increasing := List.Pairwise.nil
  named h hh := by cases hh
  alive h hh := by cases hh
  gone h hh := by cases hh

/-- A node is made with a number above all those returned before. -/
theorem Census.Ok.made {c : Census} (hc : c.Ok) {st : Store} (hst : st.Sound) {name : Str} {m : Int}
    (hname : Plain name) (hnone : c.store.number name = none)
    (hm : c.store.maxInstanceNumber = some m)
    (hsmall : m + 1 < 2 ^ 31)
    (hnumber : st.number = Function.update c.store.number name
      (some (UInt64.ofInt (printfD (UInt64.ofInt m + 1)))))
    (hcounter : st.maxInstanceNumber = some (printfD (UInt64.ofInt m + 1))) :
    Census.Ok ⟨st, (name, UInt64.ofInt m + 1) :: c.made, c.gone⟩ := by
  obtain ⟨m', hm', hpos, hlt, hbound⟩ := hc.counter
  rw [hm] at hm'
  obtain rfl := Option.some.inj hm'
  obtain ⟨hnext, hprint, hback⟩ := next_number hpos hsmall
  rw [hback] at hnumber
  rw [hprint] at hcounter
  have hnew : ∀ h ∈ c.made, h.2 < UInt64.ofInt m + 1 := by
    intro h hh
    have hle := hbound h hh
    rw [UInt64.lt_iff_toNat_lt]
    omega
  refine ⟨hst, ⟨m + 1, hcounter, by omega, hsmall, ?_⟩, ?_, ?_, ?_, ?_⟩
  · intro h hh
    rcases List.mem_cons.mp hh with rfl | hh
    · show ((UInt64.ofInt m + 1).toNat : Int) ≤ m + 1
      omega
    · have hle := hbound h hh
      omega
  · apply List.Pairwise.cons
    · exact hnew
    · exact hc.increasing
  · intro h hh
    rcases List.mem_cons.mp hh with rfl | hh
    · exact hname
    · exact hc.named h hh
  · intro h hh hgone
    rcases List.mem_cons.mp hh with rfl | hh
    · simp [hnumber]
    · have halive := hc.alive h hh hgone
      by_cases hname : h.1 = name
      · rw [hname, hnone] at halive
        cases halive
      · simp only [hnumber, Function.update_of_ne hname]
        exact halive
  · intro h hgone
    obtain ⟨hmade, hdead⟩ := hc.gone h hgone
    refine ⟨List.mem_cons_of_mem _ hmade, ?_⟩
    by_cases hname : h.1 = name
    · simp only [hnumber, hname, Function.update_self]
      intro hsame
      have hlt := hnew h hmade
      rw [Option.some.inj hsame] at hlt
      exact UInt64.lt_irrefl _ hlt
    · simp only [hnumber, Function.update_of_ne hname]
      exact hdead

/-- With a node go all the numbers its name has had. -/
theorem Census.Ok.deleted {c : Census} (hc : c.Ok) {st : Store} (hst : st.Sound) {name : Str}
    (hnumber : st.number = Function.update c.store.number name none)
    (hcounter : st.maxInstanceNumber = c.store.maxInstanceNumber) :
    Census.Ok ⟨st, c.made, c.made.filter (fun h => h.1 == name) ++ c.gone⟩ := by
  refine ⟨hst, ?_, hc.increasing, hc.named, ?_, ?_⟩
  · rw [hcounter]
    exact hc.counter
  · intro h hh hgone
    simp only [List.mem_append, List.mem_filter, beq_iff_eq, not_or, not_and] at hgone
    simp only [hnumber, Function.update_of_ne (hgone.1 hh)]
    exact hc.alive h hh hgone.2
  · intro h hgone
    by_cases hname : h.1 = name
    · have hmade : h ∈ c.made := by
        rcases List.mem_append.mp hgone with hfilter | hold
        · exact (List.mem_filter.mp hfilter).1
        · exact (hc.gone h hold).1
      simp [hnumber, hname, hmade]
    · have hold : h ∈ c.gone := by simpa [hname] using hgone
      simp only [hnumber, Function.update_of_ne hname]
      exact hc.gone h hold

theorem CensusStep.ok {c c' : Census} (h : CensusStep c c') (hc : c.Ok) (hst : c'.store.Sound) :
    c'.Ok := by
  cases h with
  | other hnumber hcounter =>
    refine ⟨hst, ?_, hc.increasing, hc.named, ?_, ?_⟩
    · simp only [hcounter]
      exact hc.counter
    · simp only [hnumber]
      exact hc.alive
    · simp only [hnumber]
      exact hc.gone
  | made hname hnone hm hsmall hnumber hcounter =>
    exact hc.made hst hname hnone hm hsmall hnumber hcounter
  | gone hnumber hcounter => exact hc.deleted hst hnumber hcounter

theorem census_ok {sq : Engine} {strHash : Str → UInt64} {c : Census}
    (h : (ServerDb.census sq strHash).Reach Numbered c) : c.Ok := by
  refine h.invariant ?_ ?_
  · rintro c rfl
    exact Census.ok_first
  · intro c c' op _ hc hok hstep
    obtain ⟨hst, hstep⟩ := census_step hc.sound hok hstep
    exact hstep.ok hc hst

/-! ## What the calls do with a number -/

section Calls

variable {sq : Engine} {strHash : Str → UInt64} {st : Store} {name : Str} {n : UInt64}

theorem Store.row_of_number (h : st.number name = some n) :
    ∃ r, st.row name = some r ∧ UInt64.ofInt r.instanceNumber = n :=
  Option.map_eq_some_iff.mp h

/-- A call that carries a number the node does not have is refused. -/
theorem refused_of_number (hname : Plain name) (hnumber : st.number name ≠ some n) {op : DbOp}
    (hop : op.handle = some (name, n)) : Refused sq strHash st op := by
  have hrow : ∀ row, st.row name = some row → UInt64.ofInt row.instanceNumber ≠ n := by
    rintro row hrow rfl
    exact hnumber (by simp [Store.number, hrow])
  cases op with
  | checkAndDelete =>
    cases hop
    left
    simp only [DbOp.run, checkAndDelete_checked, query_plain sq hname, checked_refused hrow]
    rfl
  | checkAndRead =>
    cases hop
    right
    simp only [DbOp.run, checkAndRead_checked, query_plain sq hname, checked_refused hrow]
    rfl
  | checkAndUpdate =>
    cases hop
    left
    simp only [DbOp.run, checkAndUpdate_checked, query_plain sq hname, checked_refused hrow]
    rfl
  | testAndSetLockOwner =>
    cases hop
    left
    simp only [DbOp.run, testAndSetLockOwner_checked, query_plain sq hname, checked_refused hrow]
    rfl
  | resetLockOwner =>
    cases hop
    left
    simp only [DbOp.run, resetLockOwner_checked, query_plain sq hname, checked_refused hrow]
    rfl
  | _ => cases hop

/-- A call that carries the number of the node is accepted where nothing else hinders it. -/
theorem accepted_of_number (hst : st.Sound) (hnumber : st.number name = some n) {op : DbOp}
    (hop : op.handle = some (name, n)) (hcontained : Contained st op) (hfree : Unhindered st op) :
    Accepted sq strHash st op := by
  obtain ⟨r, hrow, hn⟩ := Store.row_of_number hnumber
  have hends : CallEnds strHash st op (op.run sq strHash st) :=
    call_ends hst.idle hst.counter hcontained
  unfold Accepted
  generalize op.run sq strHash st = o at hends
  cases op with
  | checkAndDelete =>
    cases hop
    obtain ⟨hunlocked, hempty, hparent⟩ := hfree r hrow
    cases hends with
    | notDeleted hwhy =>
      rcases hwhy r hrow with howner | hne | ⟨hdir, hcontent⟩
      · exact absurd hunlocked howner
      · exact absurd hn hne
      · rcases hempty with hfile | hnil
        · exact absurd hfile hdir
        · exact absurd hnil hcontent
    | crashed _ hroot hbad =>
      rcases hparent with htop | ⟨p, hp, hdir⟩
      · exact absurd htop hroot
      · exact absurd hdir (hbad p hp)
    | deleted => exact ⟨_, Or.inl rfl⟩
  | checkAndRead =>
    cases hop
    cases hends with
    | read => exact ⟨st, Or.inr ⟨ServerDb.readRow r, by simp [hrow, Option.filter, hn]⟩⟩
  | checkAndUpdate =>
    cases hop
    cases hends with
    | notUpdated hwhy => exact absurd hn (hwhy r hrow)
    | updated => exact ⟨_, Or.inl rfl⟩
  | testAndSetLockOwner =>
    cases hop
    cases hends with
    | notLocked hwhy =>
      rcases hwhy r hrow with hne | howner
      · exact absurd hn hne
      · exact absurd (hfree r hrow) howner
    | locked => exact ⟨_, Or.inl rfl⟩
  | resetLockOwner =>
    cases hop
    cases hends with
    | notUnlocked hwhy => exact absurd hn (hwhy r hrow)
    | unlocked => exact ⟨_, Or.inl rfl⟩
  | _ => cases hop

end Calls

/-! ## The law -/

theorem Census.Ok.identifies {sq : Engine} {strHash : Str → UInt64} {c : Census} (hc : c.Ok) :
    Identifies sq strHash c := by
  refine ⟨hc.increasing, ?_, ?_, ?_, ?_⟩
  · intro h hh hgone
    have hnumber := hc.alive h hh hgone
    obtain ⟨r, hrow, hn⟩ := Store.row_of_number hnumber
    have hname : Plain h.1 := Store.row_name hrow ▸ (hc.sound.rows r (Store.row_mem hrow)).name
    rw [ServerDb.checkAndOpen_row sq hname]
    simp [hrow, hn]
  · intro h hh hgone
    have hnumber := hc.alive h hh hgone
    obtain ⟨r, hrow, hn⟩ := Store.row_of_number hnumber
    have hname : Plain h.1 := Store.row_name hrow ▸ (hc.sound.rows r (Store.row_mem hrow)).name
    refine ⟨r.content, (ServerDb.readRow r).2, ?_, hn⟩
    rw [ServerDb.checkAndRead_row sq hname]
    simp [hrow, Option.filter, hn, ServerDb.readRow]
  · intro h hh hgone op hop hcontained hfree
    exact accepted_of_number hc.sound (hc.alive h hh hgone) hop hcontained hfree
  · intro h hgone op hop
    obtain ⟨hmade, hnumber⟩ := hc.gone h hgone
    exact refused_of_number (hc.named h hmade) hnumber hop

/-- In every run of calls whose strings stay inside their tokens and whose new
    nodes get numbers below 2^31, instance numbers identify the nodes made. -/
theorem identifies_reachable {sq : Engine} {strHash : Str → UInt64} {c : Census}
    (h : (ServerDb.census sq strHash).Reach Numbered c) : Identifies sq strHash c :=
  (census_ok h).identifies

/-- A node made, deleted and made again. -/
def madeTwice : List DbOp :=
  [.checkAndCreate ['/', 'f'] false, .checkAndDelete ['/', 'f'] 1,
    .checkAndCreate ['/', 'f'] false]

theorem identifies_madeTwice : ∃ c, (ServerDb.census .refusing fun _ => 0).exec Numbered madeTwice
      .first = some c ∧ c.made = [(['/', 'f'], 2), (['/', 'f'], 1)] ∧ c.gone = [(['/', 'f'], 1)] ∧
    Identifies .refusing (fun _ => 0) c := by
  have hrun : ∃ c, (ServerDb.census .refusing fun _ => 0).exec Numbered madeTwice .first = some c ∧
      c.made = [(['/', 'f'], 2), (['/', 'f'], 1)] ∧ c.gone = [(['/', 'f'], 1)] := by
    refine ⟨_, rfl, ?_⟩
    decide
  obtain ⟨c, hc, hmade, hgone⟩ := hrun
  have hreach := Lts.Reach.exec (.init rfl) hc
  exact ⟨c, hc, hmade, hgone, identifies_reachable hreach⟩

/-! ## The number 2^31 -/

/-- An empty store whose counter is `k`. -/
def emptyAt (k : Nat) : Store := ⟨[], some k, false⟩

/-- The deletion of the file again, if its number is read back. -/
theorem emptyAt_delete {k : Nat} {n : UInt64} (h : UInt64.ofInt (printfD n) = n)
    (hk : printfD n = (k + 1 : Nat)) :
    (DbOp.checkAndDelete ['/', 'f'] n).run .refusing (fun _ => 0)
        ((emptyAt k).create ['/', 'f'] false n) = .ret (.done true) (emptyAt (k + 1)) := by
  have hnumber : UInt64.ofInt ((emptyAt k).newRow ['/', 'f'] false n).instanceNumber = n := h
  simp only [DbOp.run, checkAndDelete_checked]
  show (checked _ _ _ n (.ok (some ((emptyAt k).newRow ['/', 'f'] false n)))).map _ = _
  rw [checked, if_pos hnumber]
  show Outcome.ret (DbResult.done true) (⟨[], some (printfD n), false⟩ : Store) = _
  rw [hk]
  rfl

section Emptied

variable {k : Nat} {made gone : List (Str × UInt64)}

theorem emptyAt_create_ok (hk : k + 1 < 2 ^ 31) :
    Numbered ⟨emptyAt k, made, gone⟩ (.checkAndCreate ['/', 'f'] false) := by
  have hcontained : Contained (emptyAt k) (.checkAndCreate ['/', 'f'] false) :=
    ⟨by decide, by decide, fun p hp => by cases hp⟩
  refine ⟨hcontained, fun _ m hm => ?_⟩
  obtain rfl := Option.some.inj hm
  omega

theorem emptyAt_delete_ok (n : UInt64) :
    Numbered ⟨(emptyAt k).create ['/', 'f'] false n, made, gone⟩
      (.checkAndDelete ['/', 'f'] n) := by
  have hcontained : Contained ((emptyAt k).create ['/', 'f'] false n)
      (.checkAndDelete ['/', 'f'] n) :=
    ⟨by decide, by decide, fun p hp => by cases hp⟩
  exact ⟨hcontained, fun hno => hno.elim⟩

theorem emptyAt_create_step :
    (ServerDb.census .refusing fun _ => 0).step (.checkAndCreate ['/', 'f'] false)
        ⟨emptyAt k, made, gone⟩ =
      some ⟨(emptyAt k).create ['/', 'f'] false (UInt64.ofInt k + 1),
        (['/', 'f'], UInt64.ofInt k + 1) :: made, gone⟩ := rfl

/-- Creating and deleting a file takes the counter to every value below 2^31. -/
theorem emptyAt_reach (hk : k < 2 ^ 31) : ∃ made gone,
    (ServerDb.census .refusing fun _ => 0).Reach Numbered ⟨emptyAt k, made, gone⟩ := by
  induction k with
  | zero => exact ⟨[], [], .init rfl⟩
  | succ k ih =>
    obtain ⟨made, gone, hreach⟩ := ih (by omega)
    obtain ⟨-, hprint, hback⟩ := next_number (m := k) (by omega) (by omega)
    have hcreated := hreach.step (emptyAt_create_ok hk) emptyAt_create_step
    refine ⟨(['/', 'f'], UInt64.ofInt k + 1) :: made,
      ((['/', 'f'], UInt64.ofInt k + 1) :: made).filter (fun h => h.1 == ['/', 'f']) ++ gone,
      hcreated.step (emptyAt_delete_ok _) ?_⟩
    show Census.step _ _ _ _ = _
    unfold Census.step
    rw [emptyAt_delete hback hprint]
    rfl

end Emptied

/-- The node after that gets the number 2^31, which is read back as another one. -/
theorem not_identifies : ¬ ∀ c, (ServerDb.census .refusing fun _ => 0).Reach (fun _ _ => True) c →
    Identifies .refusing (fun _ => 0) c := by
  intro h
  obtain ⟨made, gone, hreach⟩ := emptyAt_reach (k := 2147483647) (by decide)
  have hold := census_ok hreach
  have hcreated := (hreach.mono fun _ _ _ => trivial).step trivial
    emptyAt_create_step
  have hfresh : (['/', 'f'], UInt64.ofInt (2147483647 : Nat) + 1) ∉ gone := by
    intro hgone
    obtain ⟨m, hm, -, -, hbound⟩ := hold.counter
    have hle := hbound _ (hold.gone _ hgone).1
    obtain rfl := Option.some.inj hm
    exact absurd hle (by decide)
  have hopened := (h _ hcreated).opened _ List.mem_cons_self hfresh
  rw [ServerDb.checkAndOpen_row _ (by decide)] at hopened
  injection hopened with hopened
  have hback : UInt64.ofInt (printfD (UInt64.ofInt (2147483647 : Nat) + 1)) =
      UInt64.ofInt (2147483647 : Nat) + 1 := Option.some.inj hopened
  exact absurd hback (by decide)

end SimpleChubby
