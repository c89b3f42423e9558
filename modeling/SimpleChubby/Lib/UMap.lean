import Mathlib.Logic.Basic
import Mathlib.Tactic.SplitIfs

/-!
# Hash maps with default insertion

`UMap κ ν` models a `std::unordered_map`: a finite map whose subscript operator
stores the default value under a key that is absent. Iteration order plays no
part, so a map is the function of its entries.
-/

/-- A map from keys to values. -/
def UMap (κ ν : Type) : Type := κ → Option ν

namespace UMap

variable {κ ν : Type}

/-- The map without entries. -/
def empty : UMap κ ν := fun _ => none

/-- The entry of a key, if there is one. -/
def find (m : UMap κ ν) (k : κ) : Option ν := m k

/-- Whether a key has an entry. -/
def has (m : UMap κ ν) (k : κ) : Bool := (m.find k).isSome

/-- The value the subscript operator reads: the stored one, or the default. -/
def get [Inhabited ν] (m : UMap κ ν) (k : κ) : ν := (m.find k).getD default

section Reading

variable {m : UMap κ ν} {k : κ}

@[simp] theorem find_empty : (empty : UMap κ ν).find k = none := rfl

@[simp] theorem has_empty : (empty : UMap κ ν).has k = false := rfl

theorem has_eq_true : m.has k = true ↔ ∃ v, m.find k = some v := Option.isSome_iff_exists

theorem has_eq_false : m.has k = false ↔ m.find k = none := by
  simp [has]

variable [Inhabited ν]

@[simp] theorem get_empty : (empty : UMap κ ν).get k = default := rfl

theorem get_of_find_none (h : m.find k = none) : m.get k = default := by
  simp [get, h]

theorem get_of_find_some {v : ν} (h : m.find k = some v) : m.get k = v := by
  simp [get, h]

/-- A value other than the default is stored. -/
theorem find_of_get_ne (h : m.get k ≠ default) : m.find k = some (m.get k) := by
  cases hk : m.find k with
  | none => exact absurd (get_of_find_none hk) h
  | some v => rw [get_of_find_some hk]

end Reading

variable [DecidableEq κ]

/-- Store `v` under `k`. -/
def set (m : UMap κ ν) (k : κ) (v : ν) : UMap κ ν := fun j => if j = k then some v else m j

/-- Remove the entry of `k`. -/
def erase (m : UMap κ ν) (k : κ) : UMap κ ν := fun j => if j = k then none else m j

/-- Change the value under `k` in place. -/
def alter [Inhabited ν] (m : UMap κ ν) (k : κ) (f : ν → ν) : UMap κ ν := m.set k (f (m.get k))

/-- The map after the subscript operator has read `k`. -/
def touch [Inhabited ν] (m : UMap κ ν) (k : κ) : UMap κ ν := m.alter k id

/-- Remove the entry of `k` if its value passes the test. -/
def eraseIf [Inhabited ν] (m : UMap κ ν) (k : κ) (p : ν → Bool) : UMap κ ν :=
  if p (m.get k) then m.erase k else m

section Writing

variable (m : UMap κ ν) (k j : κ)

@[simp] theorem find_set (v : ν) : (m.set k v).find j = if j = k then some v else m.find j := rfl

@[simp] theorem find_erase : (m.erase k).find j = if j = k then none else m.find j := rfl

theorem has_erase_self : (m.erase k).has k = false := by
  rw [has_eq_false, find_erase, if_pos rfl]

theorem find_erase_of_ne {m : UMap κ ν} {k j : κ} (h : j ≠ k) : (m.erase k).find j = m.find j := by
  rw [find_erase, if_neg h]

variable [Inhabited ν]

@[simp] theorem get_set (v : ν) : (m.set k v).get j = if j = k then v else m.get j := by
  unfold get
  rw [find_set]
  split_ifs <;> rfl

@[simp] theorem get_erase : (m.erase k).get j = if j = k then default else m.get j := by
  unfold get
  rw [find_erase]
  split_ifs <;> rfl

@[simp] theorem find_alter (f : ν → ν) :
    (m.alter k f).find j = if j = k then some (f (m.get k)) else m.find j := rfl

@[simp] theorem get_alter (f : ν → ν) :
    (m.alter k f).get j = if j = k then f (m.get k) else m.get j :=
  get_set m k j _

@[simp] theorem find_touch :
    (m.touch k).find j = if j = k then some (m.get k) else m.find j := rfl

/-- Reading a key does not change what the subscript operator reads. -/
@[simp] theorem get_touch : (m.touch k).get j = m.get j := by
  unfold touch
  rw [get_alter]
  split_ifs with h
  · rw [h]; rfl
  · rfl

/-- Reading a key that has an entry changes nothing. -/
theorem touch_of_has (h : m.has k = true) : m.touch k = m := by
  obtain ⟨v, hv⟩ := has_eq_true.mp h
  funext j
  show (m.touch k).find j = m.find j
  rw [find_touch]
  split_ifs with hj
  · rw [hj, get_of_find_some hv, hv]
  · rfl

/-- Reading a key whose value is not the default changes nothing. -/
theorem touch_eq_self (h : m.get k ≠ default) : m.touch k = m :=
  touch_of_has m k (has_eq_true.mpr ⟨_, find_of_get_ne h⟩)

theorem find_eraseIf (p : ν → Bool) :
    (m.eraseIf k p).find j = if j = k ∧ p (m.get k) then none else m.find j := by
  unfold eraseIf
  by_cases hp : p (m.get k) = true <;> simp [hp]

/-- Removing an entry that holds the default does not change what is read. -/
theorem get_eraseIf {p : ν → Bool} (hp : ∀ v, p v = true → v = default) :
    (m.eraseIf k p).get j = m.get j := by
  unfold eraseIf
  split_ifs with h
  · rw [get_erase]
    split_ifs with hj
    · rw [hj, hp _ h]
    · rfl
  · rfl

end Writing

end UMap
