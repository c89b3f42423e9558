import Mathlib.Data.List.Basic
import Mathlib.Tactic.SplitIfs

/-!
# Labelled transition systems

A deterministic partial step function over labels; nondeterminism is the choice
of the label. `Reach T ok` collects the states of runs all of whose steps meet
a side condition `ok` on the state before the step and the label, so that one
system serves results about every run and results about the runs of a
well-behaved environment. `Run` names the labels of the run as well, and `watch`
keeps a record of a run beside the state.
-/

/-- A transition system: its initial states and its step function. -/
structure Lts (σ ℓ : Type) where
  init : σ → Prop
  step : ℓ → σ → Option σ

namespace Lts

variable {σ ℓ : Type} (T : Lts σ ℓ) (ok : σ → ℓ → Prop)

/-- The states of the runs whose steps all meet `ok`. -/
inductive Reach : σ → Prop
  | init {s : σ} : T.init s → Reach s
  | step {s s' : σ} {l : ℓ} : Reach s → ok s l → T.step l s = some s' → Reach s'

/-- Execute a list of labels; `none` when a step is refused or not allowed. -/
def exec [∀ s l, Decidable (ok s l)] : List ℓ → σ → Option σ
  | [], s => some s
  | l :: rest, s => if ok s l then (T.step l s).bind (exec rest) else none

variable {T ok}

/-- The first of several labels is allowed and taken. -/
theorem exec_cons [∀ s l, Decidable (ok s l)] {s s' : σ} {l : ℓ} {rest : List ℓ}
    (h : T.exec ok (l :: rest) s = some s') :
    ok s l ∧ ∃ t, T.step l s = some t ∧ T.exec ok rest t = some s' := by
  unfold Lts.exec at h
  split_ifs at h with hok
  exact ⟨hok, Option.bind_eq_some_iff.mp h⟩

/-- The invariant rule: what holds initially and is kept by every allowed step
    holds in every state reached. -/
theorem Reach.invariant {I : σ → Prop} (hinit : ∀ s, T.init s → I s)
    (hstep : ∀ s s' l, Reach T ok s → I s → ok s l → T.step l s = some s' → I s') {s : σ}
    (h : Reach T ok s) : I s := by
  induction h with
  | init h => exact hinit _ h
  | step hs hok hst ih => exact hstep _ _ _ hs ih hok hst

theorem Reach.mono {ok' : σ → ℓ → Prop} (hok : ∀ s l, ok s l → ok' s l) {s : σ}
    (h : Reach T ok s) : Reach T ok' s := by
  induction h with
  | init h => exact .init h
  | step _ hl hst ih => exact .step ih (hok _ _ hl) hst

/-- Executing labels stays inside the reachable states. -/
theorem Reach.exec [∀ s l, Decidable (ok s l)] {s s' : σ} {ls : List ℓ} (h : Reach T ok s)
    (he : T.exec ok ls s = some s') : Reach T ok s' := by
  induction ls generalizing s with
  | nil =>
    obtain rfl := Option.some.inj he
    exact h
  | cons l rest ih =>
    obtain ⟨hok, t, ht, hrest⟩ := exec_cons he
    exact ih (h.step hok ht) hrest

/-! ## Runs with their labels -/

section Run

variable (T ok)

/-- The states of the runs with these labels, the first one first, whose steps all
    meet `ok`. -/
inductive Run : List ℓ → σ → Prop
  | init {s : σ} : T.init s → Run [] s
  | step {ls : List ℓ} {s s' : σ} {l : ℓ} : Run ls s → ok s l → T.step l s = some s' →
      Run (ls ++ [l]) s'

variable {T ok}

/-- The states of a run are reached by steps with its labels. -/
theorem Run.reach_mem {ls : List ℓ} {s : σ} (h : Run T ok ls s) :
    Reach T (fun s l => ok s l ∧ l ∈ ls) s := by
  induction h with
  | init h => exact .init h
  | step _ hl hst ih =>
    refine (ih.mono fun _ _ h => ?_).step ⟨hl, List.mem_concat_self⟩ hst
    exact ⟨h.1, List.mem_append_left _ h.2⟩

theorem Run.reach {ls : List ℓ} {s : σ} (h : Run T ok ls s) : Reach T ok s :=
  h.reach_mem.mono fun _ _ h => h.1

/-- Executing labels goes on with the run. -/
theorem Run.exec [∀ s l, Decidable (ok s l)] {ls ls' : List ℓ} {s s' : σ} (h : Run T ok ls s)
    (he : T.exec ok ls' s = some s') : Run T ok (ls ++ ls') s' := by
  induction ls' generalizing ls s with
  | nil =>
    obtain rfl := Option.some.inj he
    rwa [List.append_nil]
  | cons l rest ih =>
    obtain ⟨hok, t, ht, hrest⟩ := exec_cons he
    rw [List.append_cons]
    exact ih (h.step hok ht) hrest

/-- Forward simulation, label by label: each allowed step of `T` is the step of `T'`
    that its label means there, or changes nothing if it means none. -/
theorem Run.refines {σ' ℓ' : Type} {T' : Lts σ' ℓ'} {ok' : σ' → ℓ' → Prop} (f : σ → σ')
    (meaning : ℓ → Option ℓ') (hinit : ∀ s, T.init s → T'.init (f s))
    (hnone : ∀ s t l, ok s l → T.step l s = some t → meaning l = none → f t = f s)
    (hsome : ∀ s t l l', ok s l → T.step l s = some t → meaning l = some l' →
      ok' (f s) l' ∧ T'.step l' (f s) = some (f t))
    {ls : List ℓ} {s : σ} (h : Run T ok ls s) : Run T' ok' (ls.filterMap meaning) (f s) := by
  induction h with
  | init h => exact .init (hinit _ h)
  | @step ls s s' l _ hok hst ih =>
    rw [List.filterMap_append, List.filterMap_cons]
    cases hl : meaning l with
    | none =>
      rw [hnone s s' l hok hst hl, List.filterMap_nil, List.append_nil]
      exact ih
    | some l' =>
      obtain ⟨hok', hst'⟩ := hsome s s' l l' hok hst hl
      exact ih.step hok' hst'

end Run

/-! ## Keeping a record -/

section Watch

variable {ω : Type} (T) (start : ω) (record : σ → ℓ → σ → ω → ω)

/-- The system with a record beside it, which is kept from step to step. -/
def watch : Lts (σ × ω) ℓ where
  init w := T.init w.1 ∧ w.2 = start
  step l w := (T.step l w.1).map fun s => (s, record w.1 l s w.2)

variable {T start record}

theorem watch_step {l : ℓ} {w w' : σ × ω} (h : (T.watch start record).step l w = some w') :
    T.step l w.1 = some w'.1 ∧ w'.2 = record w.1 l w'.1 w.2 := by
  obtain ⟨s, hs, rfl⟩ := Option.map_eq_some_iff.mp h
  exact ⟨hs, rfl⟩

variable (start record)

/-- The record only watches: the runs beside which it is kept are all runs. -/
theorem reach_watch {s : σ} :
    T.Reach ok s ↔ ∃ r, (T.watch start record).Reach (fun w l => ok w.1 l) (s, r) := by
  constructor
  · intro h
    induction h with
    | init h => exact ⟨start, .init ⟨h, rfl⟩⟩
    | @step s s' l _ hok hstep ih =>
      obtain ⟨r, hr⟩ := ih
      refine ⟨record s l s' r, hr.step (l := l) hok ?_⟩
      exact Option.map_eq_some_iff.mpr ⟨s', hstep, rfl⟩
  · rintro ⟨r, h⟩
    generalize hw : (s, r) = w at h
    induction h generalizing s r with
    | init h =>
      subst hw
      exact .init h.1
    | @step w₀ w' l _ hok hstep ih =>
      subst hw
      exact (ih w₀.2 rfl).step hok (watch_step hstep).1

end Watch

end Lts
