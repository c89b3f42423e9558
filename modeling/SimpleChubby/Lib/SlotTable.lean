import Mathlib.Data.List.Basic
import Mathlib.Data.List.Nodup
import SimpleChubby.Lib.UMap

/-!
# Slot tables

A row of slots with a map beside it that tells where the slot of a key is. Slots are
added at the end of the row. `compact` takes out those that are not kept: the ones at
the end, and then, from the end to the front, it fills each gap with the last slot.

The row and the map refer to each other (`Linked`). What is stored under a key does not
depend on where its slot is: `compact` takes out what is not kept and nothing else, and
never meets a slot that the map does not know.
-/

/-- A row of slots, each with its key, and for each key where its slot is, with what is
    stored beside. -/
structure SlotTable (κ α β : Type) where
  slots : List (κ × α)
  places : UMap κ (Nat × β)

namespace SlotTable

variable {κ α β : Type}

/-- The table without slots. -/
def empty : SlotTable κ α β := ⟨[], UMap.empty⟩

/-- The key of the slot at a place. -/
def keyAt (t : SlotTable κ α β) (i : Nat) : Option κ := (t.slots[i]?).map Prod.fst

/-- Where the map says that the slot of a key is. -/
def placeOf (t : SlotTable κ α β) (k : κ) : Option Nat := (t.places.find k).map Prod.fst

/-- What is stored under a key. -/
def entry (t : SlotTable κ α β) (k : κ) : Option (α × β) :=
  match t.places.find k with
  | none => none
  | some (i, b) => (t.slots[i]?).map fun s => (s.2, b)

/-- The keys in the order of the row. -/
def keys (t : SlotTable κ α β) : List κ := t.slots.map Prod.fst

/-- The map has the place of every slot, and no other. -/
def Linked (t : SlotTable κ α β) : Prop := ∀ k i, t.placeOf k = some i ↔ t.keyAt i = some k

section Reading

variable {t : SlotTable κ α β} {k : κ} {a : α} {b : β} {i : Nat}

theorem keyAt_of_slot (h : t.slots[i]? = some (k, a)) : t.keyAt i = some k := by
  simp [keyAt, h]

theorem keyAt_lt (h : t.keyAt i = some k) : i < t.slots.length := by
  obtain ⟨s, hslot, _⟩ := Option.map_eq_some_iff.mp h
  exact (List.getElem?_eq_some_iff.mp hslot).1

theorem placeOf_of_place (h : t.places.find k = some (i, b)) : t.placeOf k = some i := by
  simp [placeOf, h]

theorem linked_empty : (empty : SlotTable κ α β).Linked := by
  intro k i
  simp [placeOf, keyAt, empty]

/-- The map has the place of a slot. -/
theorem Linked.placed (h : t.Linked) (hslot : t.slots[i]? = some (k, a)) :
    ∃ b, t.places.find k = some (i, b) := by
  obtain ⟨⟨i', b⟩, hplace, rfl⟩ := Option.map_eq_some_iff.mp ((h k i).mpr (keyAt_of_slot hslot))
  exact ⟨b, hplace⟩

/-- There is a slot at every place of the map. -/
theorem Linked.filled (h : t.Linked) (hplace : t.places.find k = some (i, b)) :
    ∃ a, t.slots[i]? = some (k, a) := by
  obtain ⟨⟨k', a⟩, hslot, rfl⟩ :=
    Option.map_eq_some_iff.mp ((h k i).mp (placeOf_of_place hplace))
  exact ⟨a, hslot⟩

/-- Where the map and the row are the same at a key, so is the entry. -/
theorem entry_congr {u : SlotTable κ α β} (hfind : u.places.find k = t.places.find k)
    (hslot : ∀ i, t.placeOf k = some i → u.slots[i]? = t.slots[i]?) : u.entry k = t.entry k := by
  unfold entry
  rw [hfind]
  cases hplace : t.places.find k with
  | none => rfl
  | some p =>
    dsimp only
    rw [hslot p.1 (placeOf_of_place hplace)]

theorem entry_of_places (hplace : t.places.find k = some (i, b))
    (hslot : t.slots[i]? = some (k, a)) : t.entry k = some (a, b) := by
  unfold entry
  rw [hplace]
  simp [hslot]

theorem Linked.entry_eq_some (h : t.Linked) :
    t.entry k = some (a, b) ↔
      ∃ i, t.places.find k = some (i, b) ∧ t.slots[i]? = some (k, a) := by
  constructor
  · intro hentry
    unfold entry at hentry
    cases hplace : t.places.find k with
    | none => rw [hplace] at hentry; cases hentry
    | some p =>
      obtain ⟨a', hslot⟩ := h.filled hplace
      rw [hplace] at hentry
      simp only [hslot, Option.map_some, Option.some.injEq, Prod.mk.injEq] at hentry
      obtain ⟨rfl, rfl⟩ := hentry
      exact ⟨p.1, rfl, hslot⟩
  · rintro ⟨i, hplace, hslot⟩
    exact entry_of_places hplace hslot

theorem Linked.entry_eq_none (h : t.Linked) : t.entry k = none ↔ t.places.find k = none := by
  constructor
  · intro hentry
    cases hplace : t.places.find k with
    | none => rfl
    | some p =>
      obtain ⟨a, hslot⟩ := h.filled hplace
      rw [entry_of_places hplace hslot] at hentry
      cases hentry
  · intro hplace
    unfold entry
    rw [hplace]

/-- Every slot holds an entry. -/
theorem Linked.entry_of_slot (h : t.Linked) (hslot : t.slots[i]? = some (k, a)) :
    ∃ b, t.places.find k = some (i, b) ∧ t.entry k = some (a, b) := by
  obtain ⟨b, hplace⟩ := h.placed hslot
  exact ⟨b, hplace, entry_of_places hplace hslot⟩

theorem Linked.keyAt_inj (h : t.Linked) {j : Nat} (hi : t.keyAt i = some k)
    (hj : t.keyAt j = some k) : i = j := by
  have hi' := (h k i).mpr hi
  rw [(h k j).mpr hj] at hi'
  exact (Option.some.inj hi').symm

theorem keys_getElem? (t : SlotTable κ α β) (i : Nat) : t.keys[i]? = t.keyAt i := by
  simp [keys, keyAt]

theorem Linked.mem_keys (h : t.Linked) : k ∈ t.keys ↔ (t.entry k).isSome := by
  rw [Option.isSome_iff_exists]
  constructor
  · intro hk
    obtain ⟨⟨k', a⟩, hmem, rfl⟩ := List.mem_map.mp hk
    obtain ⟨i, hslot⟩ := List.mem_iff_getElem?.mp hmem
    obtain ⟨b, _, hentry⟩ := h.entry_of_slot hslot
    exact ⟨(a, b), hentry⟩
  · rintro ⟨⟨a, b⟩, hentry⟩
    obtain ⟨i, _, hslot⟩ := h.entry_eq_some.mp hentry
    exact List.mem_map.mpr ⟨(k, a), List.mem_of_getElem? hslot, rfl⟩

/-- No key has two slots. -/
theorem Linked.keys_nodup (h : t.Linked) : t.keys.Nodup := by
  rw [List.nodup_iff_getElem?_ne_getElem?]
  intro i j hij hj heq
  have hkey := List.getElem?_eq_getElem hj
  rw [hkey, keys_getElem?] at heq
  rw [keys_getElem?] at hkey
  have := h.keyAt_inj heq hkey
  omega

end Reading

/-! ## Adding and changing -/

section Changing

variable [DecidableEq κ] {t : SlotTable κ α β} {k : κ} {a : α} {b : β} {i : Nat}

/-- A new slot at the end of the row. -/
def push (k : κ) (a : α) (b : β) (t : SlotTable κ α β) : SlotTable κ α β where
  slots := t.slots ++ [(k, a)]
  places := t.places.set k (t.slots.length, b)

/-- Change what is stored under a key whose place is `i`. -/
def store (k : κ) (i : Nat) (a : α) (b : β) (t : SlotTable κ α β) : SlotTable κ α β where
  slots := t.slots.set i (k, a)
  places := t.places.set k (i, b)

theorem keyAt_push (j : Nat) :
    (t.push k a b).keyAt j = if j = t.slots.length then some k else t.keyAt j := by
  unfold keyAt push
  split_ifs with hj
  · rw [hj, List.getElem?_concat_length, Option.map_some]
  · rcases Nat.lt_or_ge j t.slots.length with hlt | hge
    · rw [List.getElem?_append_left hlt]
    · rw [List.getElem?_eq_none hge, List.getElem?_eq_none (by simp; omega)]

theorem placeOf_push (j : κ) :
    (t.push k a b).placeOf j = if j = k then some t.slots.length else t.placeOf j := by
  unfold placeOf push
  rw [UMap.find_set]
  split_ifs <;> rfl

theorem Linked.push (h : t.Linked) (habsent : t.placeOf k = none) : (t.push k a b).Linked := by
  intro j i
  rw [placeOf_push, keyAt_push]
  split_ifs with hj hi hi
  · simp [hi, hj]
  · -- the key has no other place
    subst hj
    constructor
    · intro hlen
      exact absurd (Option.some.inj hlen).symm hi
    · intro hkey
      rw [(h j i).mpr hkey] at habsent
      cases habsent
  · constructor
    · intro hplace
      have := keyAt_lt ((h j i).mp hplace)
      omega
    · intro hk
      exact absurd (Option.some.inj hk).symm hj
  · exact h j i

theorem keyAt_store (hkey : t.keyAt i = some k) (j : Nat) :
    (t.store k i a b).keyAt j = t.keyAt j := by
  unfold keyAt store
  by_cases hj : j = i
  · rw [hj, List.getElem?_set_self (keyAt_lt hkey), Option.map_some]
    exact hkey.symm
  · rw [List.getElem?_set_ne (Ne.symm hj)]

theorem placeOf_store (hplace : t.placeOf k = some i) (j : κ) :
    (t.store k i a b).placeOf j = t.placeOf j := by
  unfold placeOf store
  rw [UMap.find_set]
  split_ifs with hj
  · rw [hj]
    exact hplace.symm
  · rfl

theorem Linked.store (h : t.Linked) (hplace : t.placeOf k = some i) :
    (t.store k i a b).Linked := by
  intro j n
  rw [placeOf_store hplace, keyAt_store ((h k i).mp hplace)]
  exact h j n

theorem Linked.entry_push (h : t.Linked) (j : κ) :
    (t.push k a b).entry j = if j = k then some (a, b) else t.entry j := by
  split_ifs with hj
  · subst hj
    apply entry_of_places (i := t.slots.length)
    · simp [SlotTable.push]
    · exact List.getElem?_concat_length
  · apply entry_congr
    · simp [SlotTable.push, hj]
    · intro i hplace
      exact List.getElem?_append_left (keyAt_lt ((h j i).mp hplace))

theorem Linked.entry_store (h : t.Linked) (hplace : t.placeOf k = some i) (j : κ) :
    (t.store k i a b).entry j = if j = k then some (a, b) else t.entry j := by
  split_ifs with hj
  · subst hj
    apply entry_of_places (i := i)
    · simp [SlotTable.store]
    · exact List.getElem?_set_self (keyAt_lt ((h j i).mp hplace))
  · apply entry_congr
    · simp [SlotTable.store, hj]
    · intro n hn
      apply List.getElem?_set_ne
      rintro rfl
      have hkey := (h j i).mp hn
      rw [(h k i).mp hplace] at hkey
      exact hj (Option.some.inj hkey).symm

end Changing

/-! ## Compaction -/

section Compaction

variable [DecidableEq κ] (keep : α → Bool) (droppable : β → Bool)

/-- Take a key out of the map, if it is there; what is stored there is dropped. -/
def forget (k : κ) (t : SlotTable κ α β) : Option (SlotTable κ α β) :=
  match t.places.find k with
  | none => some t
  | some (_, b) => if droppable b then some { t with places := t.places.erase k } else none

/-- Take the slots that are not kept off the end of the row. -/
def trim : Nat → SlotTable κ α β → Option (SlotTable κ α β)
  | 0, t => some t
  | n + 1, t =>
    match t.slots.getLast? with
    | none => some t
    | some (k, a) =>
      if keep a then some t
      else (t.forget droppable k).bind fun t' => trim n { t' with slots := t'.slots.dropLast }

/-- Put the last slot at the place `i`. -/
def moveBack (i : Nat) (t : SlotTable κ α β) : Option (SlotTable κ α β) :=
  match t.slots.getLast? with
  | none => none
  | some (k, a) =>
    match t.places.find k with
    | none => none
    | some (_, b) => some ⟨(t.slots.set i (k, a)).dropLast, t.places.set k (i, b)⟩

/-- Fill the gaps below a place from the end of the row. -/
def fill : Nat → SlotTable κ α β → Option (SlotTable κ α β)
  | 0, t => some t
  | i + 1, t =>
    match t.slots[i]? with
    | none => none
    | some (k, a) =>
      if keep a then fill i t
      else (t.forget droppable k).bind fun t' => (t'.moveBack i).bind (fill i)

/-- Take out what is not kept; `none` when a slot is missing in the map, or the other
    way round, or something is dropped that is not droppable. -/
def compact (t : SlotTable κ α β) : Option (SlotTable κ α β) :=
  (trim keep droppable t.slots.length t).bind fun t' =>
    fill keep droppable (t'.slots.length - 1) t'

variable {keep droppable} {t u : SlotTable κ α β} {k : κ} {a : α} {b : β} {i : Nat}

/-- `u` is `t` without `k`. -/
structure Removed (k : κ) (t u : SlotTable κ α β) : Prop where
  linked : u.Linked
  entries : ∀ j, u.entry j = if j = k then none else t.entry j

theorem forget_of_place (hplace : t.places.find k = some (i, b)) (hdrop : droppable b = true) :
    t.forget droppable k = some { t with places := t.places.erase k } := by
  unfold forget
  rw [hplace]
  simp [hdrop]

/-- The last slot and its entry are taken out together. -/
theorem Linked.dropLast (h : t.Linked) (hlast : t.slots.getLast? = some (k, a)) :
    Removed k t ⟨t.slots.dropLast, t.places.erase k⟩ := by
  rw [List.getLast?_eq_getElem?] at hlast
  have hkey := keyAt_of_slot hlast
  have hother : ∀ {j n}, j ≠ k → t.placeOf j = some n → n < t.slots.length - 1 := by
    intro j n hj hplace
    have hn := (h j n).mp hplace
    have hlt := keyAt_lt hn
    have hne : n ≠ t.slots.length - 1 := by
      rintro rfl
      rw [hkey] at hn
      exact hj (Option.some.inj hn).symm
    omega
  constructor
  · intro j n
    have hplace : (⟨t.slots.dropLast, t.places.erase k⟩ : SlotTable κ α β).placeOf j =
        if j = k then none else t.placeOf j := by
      unfold placeOf
      rw [UMap.find_erase]
      split_ifs <;> rfl
    have hrow : (⟨t.slots.dropLast, t.places.erase k⟩ : SlotTable κ α β).keyAt n =
        if n < t.slots.length - 1 then t.keyAt n else none := by
      unfold keyAt
      rw [List.getElem?_dropLast]
      split_ifs <;> rfl
    rw [hplace, hrow]
    split_ifs with hj hn hn
    · subst hj
      constructor
      · intro hnone
        cases hnone
      · intro hn'
        have := h.keyAt_inj hkey hn'
        omega
    · simp
    · exact h j n
    · constructor
      · intro hp
        exact absurd (hother hj hp) hn
      · intro hnone
        cases hnone
  · intro j
    split_ifs with hj
    · subst hj
      simp [entry]
    · apply entry_congr
      · simp [hj]
      · intro n hp
        rw [List.getElem?_dropLast, if_pos (hother hj hp)]

/-- The last slot is put where `k` was. -/
theorem Linked.fillGap {k' : κ} {a' : α} {b' : β} {n' : Nat} (h : t.Linked)
    (hslot : t.slots[i]? = some (k, a)) (hi : i < t.slots.length - 1)
    (hlast : t.slots.getLast? = some (k', a')) (hback : t.places.find k' = some (n', b')) :
    Removed k t ⟨(t.slots.set i (k', a')).dropLast, (t.places.erase k).set k' (i, b')⟩ := by
  rw [List.getLast?_eq_getElem?] at hlast
  have hkey := keyAt_of_slot hslot
  have hend := keyAt_of_slot hlast
  have hne : k' ≠ k := by
    rintro rfl
    have := h.keyAt_inj hkey hend
    omega
  have hslots : ∀ n, ((t.slots.set i (k', a')).dropLast)[n]? =
      if n < t.slots.length - 1 then if n = i then some (k', a') else t.slots[n]? else none := by
    intro n
    rw [List.getElem?_dropLast, List.length_set]
    split_ifs with hn hni
    · rw [hni, List.getElem?_set_self (by omega)]
    · rw [List.getElem?_set_ne (Ne.symm hni)]
    · rfl
  -- where the other keys are
  have hother : ∀ {j n}, j ≠ k → j ≠ k' → t.placeOf j = some n →
      n < t.slots.length - 1 ∧ n ≠ i := by
    intro j n hj hj' hplace
    have hn := (h j n).mp hplace
    have hlt := keyAt_lt hn
    constructor
    · have : n ≠ t.slots.length - 1 := by
        rintro rfl
        rw [hend] at hn
        exact hj' (Option.some.inj hn).symm
      omega
    · rintro rfl
      rw [hkey] at hn
      exact hj (Option.some.inj hn).symm
  constructor
  · intro j n
    have hplace : (⟨(t.slots.set i (k', a')).dropLast,
        (t.places.erase k).set k' (i, b')⟩ : SlotTable κ α β).placeOf j =
        if j = k' then some i else if j = k then none else t.placeOf j := by
      unfold placeOf
      rw [UMap.find_set, UMap.find_erase]
      split_ifs <;> rfl
    have hrow : (⟨(t.slots.set i (k', a')).dropLast,
        (t.places.erase k).set k' (i, b')⟩ : SlotTable κ α β).keyAt n =
        if n < t.slots.length - 1 then if n = i then some k' else t.keyAt n else none := by
      unfold keyAt
      rw [hslots]
      split_ifs <;> rfl
    rw [hplace, hrow]
    by_cases hj' : j = k'
    · subst hj'
      rw [if_pos rfl]
      constructor
      · intro hin
        obtain rfl := Option.some.inj hin
        rw [if_pos hi, if_pos rfl]
      · intro hn
        split_ifs at hn with hlt hni
        · rw [hni]
        · have := h.keyAt_inj hend hn
          omega
    · rw [if_neg hj']
      by_cases hj : j = k
      · subst hj
        rw [if_pos rfl]
        constructor
        · intro hnone
          cases hnone
        · intro hn
          split_ifs at hn with hlt hni
          · exact absurd (Option.some.inj hn) hne
          · exact absurd (h.keyAt_inj hn hkey) hni
      · rw [if_neg hj]
        constructor
        · intro hp
          obtain ⟨hlt, hni⟩ := hother hj hj' hp
          rw [if_pos hlt, if_neg hni]
          exact (h j n).mp hp
        · intro hn
          split_ifs at hn with hlt hni
          · exact absurd (Option.some.inj hn).symm hj'
          · exact (h j n).mpr hn
  · intro j
    split_ifs with hj
    · subst hj
      simp [entry, Ne.symm hne]
    · by_cases hj' : j = k'
      · subst hj'
        obtain ⟨a₀, hback'⟩ := h.filled hback
        have hn' := h.keyAt_inj (keyAt_of_slot hback') hend
        rw [hn'] at hback
        rw [entry_of_places hback hlast]
        apply entry_of_places (i := i)
        · simp
        · show ((t.slots.set i (j, a')).dropLast)[i]? = _
          rw [hslots, if_pos hi, if_pos rfl]
      · apply entry_congr
        · simp [hj, hj']
        · intro n hp
          obtain ⟨hlt, hni⟩ := hother hj hj' hp
          show ((t.slots.set i (k', a')).dropLast)[n]? = _
          rw [hslots, if_pos hlt, if_neg hni]

/-- What is not kept may be dropped. -/
def Disposable (keep : α → Bool) (droppable : β → Bool) (t : SlotTable κ α β) : Prop :=
  ∀ k a b, t.entry k = some (a, b) → keep a = false → droppable b = true

/-- `u` is `t` without some of what is not kept. -/
structure Thinned (keep : α → Bool) (t u : SlotTable κ α β) : Prop where
  linked : u.Linked
  entries : ∀ j, u.entry j = t.entry j ∨
    u.entry j = none ∧ ∃ e, t.entry j = some e ∧ keep e.1 = false

omit [DecidableEq κ] in
theorem Linked.thinned (h : t.Linked) : Thinned keep t t := ⟨h, fun _ => Or.inl rfl⟩

omit [DecidableEq κ] in
theorem Thinned.trans {v : SlotTable κ α β} (h : Thinned keep t u) (h' : Thinned keep u v) :
    Thinned keep t v where
  linked := h'.linked
  entries := by
    intro j
    rcases h'.entries j with heq | ⟨hnone, e, he, hkeep⟩
    · rw [heq]
      exact h.entries j
    · rcases h.entries j with heq | ⟨hnone', _⟩
      · exact Or.inr ⟨hnone, e, heq ▸ he, hkeep⟩
      · rw [hnone'] at he
        cases he

theorem Removed.thinned (h : Removed k t u) (hentry : t.entry k = some (a, b))
    (hkeep : keep a = false) : Thinned keep t u where
  linked := h.linked
  entries := by
    intro j
    rw [h.entries j]
    split_ifs with hj
    · subst hj
      exact Or.inr ⟨rfl, (a, b), hentry, hkeep⟩
    · exact Or.inl rfl

omit [DecidableEq κ] in
theorem Thinned.disposable (h : Thinned keep t u) (hdrop : Disposable keep droppable t) :
    Disposable keep droppable u := by
  intro k a b hentry hkeep
  rcases h.entries k with heq | ⟨hnone, _⟩
  · exact hdrop k a b (heq ▸ hentry) hkeep
  · rw [hnone] at hentry
    cases hentry

theorem trim_spec {n : Nat} (h : t.Linked) (hdrop : Disposable keep droppable t)
    (hn : t.slots.length ≤ n) :
    ∃ u, trim keep droppable n t = some u ∧ Thinned keep t u ∧
      ∀ s, u.slots.getLast? = some s → keep s.2 = true := by
  induction n generalizing t with
  | zero =>
    refine ⟨t, rfl, h.thinned, fun s hs => ?_⟩
    rw [List.length_eq_zero_iff.mp (Nat.le_zero.mp hn)] at hs
    cases hs
  | succ n ih =>
    unfold trim
    cases hlast : t.slots.getLast? with
    | none =>
      refine ⟨t, rfl, h.thinned, fun s hs => ?_⟩
      rw [hlast] at hs
      cases hs
    | some s =>
      obtain ⟨k, a⟩ := s
      by_cases hkeep : keep a = true
      · refine ⟨t, by simp [hkeep], h.thinned, fun s hs => ?_⟩
        rw [hlast] at hs
        cases hs
        exact hkeep
      · -- the last slot goes
        have hkeep' : keep a = false := by simpa using hkeep
        have hslot := hlast
        rw [List.getLast?_eq_getElem?] at hslot
        obtain ⟨b, hplace, hentry⟩ := h.entry_of_slot hslot
        have hrest := (h.dropLast hlast).thinned hentry hkeep'
        obtain ⟨u, htrim, hthin, hend⟩ := ih hrest.linked (hrest.disposable hdrop)
          (by rw [List.length_dropLast]; omega)
        refine ⟨u, ?_, hrest.trans hthin, hend⟩
        dsimp only
        rw [if_neg hkeep, forget_of_place hplace (hdrop k a b hentry hkeep'), Option.bind_some]
        exact htrim

theorem fill_spec (h : t.Linked) (hdrop : Disposable keep droppable t)
    (hbehind : ∀ n s, i ≤ n → t.slots[n]? = some s → keep s.2 = true)
    (hi : i < t.slots.length ∨ i = 0) :
    ∃ u, fill keep droppable i t = some u ∧ Thinned keep t u ∧ ∀ s ∈ u.slots, keep s.2 = true := by
  induction i generalizing t with
  | zero =>
    refine ⟨t, rfl, h.thinned, fun s hs => ?_⟩
    obtain ⟨n, hslot⟩ := List.mem_iff_getElem?.mp hs
    exact hbehind n s (Nat.zero_le n) hslot
  | succ i ih =>
    have hlen : i + 1 < t.slots.length := by omega
    unfold fill
    obtain ⟨⟨k, a⟩, hslot⟩ : ∃ s, t.slots[i]? = some s :=
      ⟨_, List.getElem?_eq_getElem (by omega)⟩
    rw [hslot]
    by_cases hkeep : keep a = true
    · dsimp only
      rw [if_pos hkeep]
      apply ih h hdrop _ (by omega)
      intro n s hn hs
      rcases Nat.eq_or_lt_of_le hn with rfl | hlt
      · rw [hslot] at hs
        cases hs
        exact hkeep
      · exact hbehind n s hlt hs
    · -- the gap is filled with the last slot, which is kept
      have hkeep' : keep a = false := by simpa using hkeep
      obtain ⟨b, hplace, hentry⟩ := h.entry_of_slot hslot
      obtain ⟨⟨k', a'⟩, hback⟩ : ∃ s, t.slots[t.slots.length - 1]? = some s :=
        ⟨_, List.getElem?_eq_getElem (by omega)⟩
      obtain ⟨b', hplace', _⟩ := h.entry_of_slot hback
      have hne : k' ≠ k := by
        rintro rfl
        have := h.keyAt_inj (keyAt_of_slot hslot) (keyAt_of_slot hback)
        omega
      have hlast := hback
      rw [← List.getLast?_eq_getElem?] at hlast
      have hrest := (h.fillGap hslot (by omega) hlast hplace').thinned hentry hkeep'
      obtain ⟨u, hfill, hthin, hall⟩ := ih hrest.linked (hrest.disposable hdrop) (by
        intro n s hn hs
        dsimp only at hs
        rw [List.getElem?_dropLast, List.length_set] at hs
        split_ifs at hs with hlt
        rcases Nat.eq_or_lt_of_le hn with rfl | hgt
        · rw [List.getElem?_set_self (by omega)] at hs
          cases hs
          exact hbehind _ _ (by omega) hback
        · rw [List.getElem?_set_ne (by omega)] at hs
          exact hbehind n s hgt hs) (by
        dsimp only
        rw [List.length_dropLast, List.length_set]
        omega)
      refine ⟨u, ?_, hrest.trans hthin, hall⟩
      dsimp only
      rw [if_neg hkeep, forget_of_place hplace (hdrop k a b hentry hkeep'), Option.bind_some]
      unfold moveBack
      dsimp only
      rw [hlast]
      dsimp only
      rw [UMap.find_erase, if_neg hne, hplace']
      exact hfill

/-- `compact` takes out exactly what is not kept, and every slot that is left is kept. -/
theorem compact_spec (h : t.Linked) (hdrop : Disposable keep droppable t) :
    ∃ u, compact keep droppable t = some u ∧ u.Linked ∧
      (∀ k, u.entry k = (t.entry k).filter fun e => keep e.1) ∧
      ∀ s ∈ u.slots, keep s.2 = true := by
  obtain ⟨t', htrim, hthin, hend⟩ := trim_spec h hdrop (Nat.le_refl _)
  obtain ⟨u, hfill, hthin', hall⟩ := fill_spec (i := t'.slots.length - 1) hthin.linked
    (hthin.disposable hdrop) (by
      intro n s hn hs
      have hlt := (List.getElem?_eq_some_iff.mp hs).1
      apply hend s
      rw [List.getLast?_eq_getElem?, ← hs]
      congr 1
      omega) (by omega)
  refine ⟨u, ?_, hthin'.linked, fun k => ?_, hall⟩
  · unfold compact
    rw [htrim, Option.bind_some, hfill]
  · rcases (hthin.trans hthin').entries k with heq | ⟨hnone, e, he, hkeep⟩
    · rw [← heq]
      cases hentry : u.entry k with
      | none => rfl
      | some e =>
        obtain ⟨n, _, hslot⟩ := hthin'.linked.entry_eq_some.mp hentry
        have hkeep : keep e.1 = true := hall _ (List.mem_of_getElem? hslot)
        exact (if_pos hkeep).symm
    · rw [hnone, he]
      exact (if_neg (by simp [hkeep])).symm

end Compaction

end SlotTable
