/-!
# Programs over a state that may stop

`Prog ε σ α` is a deterministic program over a state `σ`: a run either returns
a value and a state, or stops for a reason in `ε` (a failed assertion, an
exception nobody catches, a loop that never ends). The state at the moment of
the stop is kept. The rules below are a weakest-precondition calculus with one
postcondition for each way to end, and the derived notion of a program that
keeps an invariant.
-/

/-- How a run of a program ends. -/
inductive Outcome (ε σ α : Type) where
  | ret (value : α) (state : σ)
  | stop (reason : ε) (state : σ)
  deriving DecidableEq

/-- Change the value a run returns. -/
def Outcome.map {ε σ α β : Type} (f : α → β) : Outcome ε σ α → Outcome ε σ β
  | .ret a s => .ret (f a) s
  | .stop e s => .stop e s

theorem Outcome.map_inj {ε σ α β : Type} {f : α → β} (hf : ∀ a b, f a = f b → a = b)
    {o o' : Outcome ε σ α} : o.map f = o'.map f ↔ o = o' := by
  constructor
  · intro h
    cases o with
    | ret a s =>
      cases o' with
      | ret b s' =>
        injection h with hab hs
        rw [hf a b hab, hs]
      | stop e' s' => cases h
    | stop e s =>
      cases o' with
      | ret b s' => cases h
      | stop e' s' =>
        injection h with he hs
        rw [he, hs]
  · rintro rfl
    rfl

/-- The state a run returns in, if it returns. -/
def Outcome.returned {ε σ α : Type} : Outcome ε σ α → Option σ
  | .ret _ s => some s
  | .stop _ _ => none

theorem Outcome.returned_eq_some {ε σ α : Type} {o : Outcome ε σ α} {s : σ} :
    o.returned = some s ↔ ∃ a, o = .ret a s := by
  cases o with
  | ret a s' => simp [returned]
  | stop e s' => simp [returned]

/-- A deterministic program over `σ` which may stop for a reason in `ε`. -/
def Prog (ε σ α : Type) : Type := σ → Outcome ε σ α

namespace Prog

variable {ε ε' σ τ α β : Type}

/-- Sequencing: a stop of the first program is a stop of the whole. -/
def andThen (m : Prog ε σ α) (f : α → Prog ε σ β) : Prog ε σ β := fun s =>
  match m s with
  | .ret a s' => f a s'
  | .stop e s' => .stop e s'

instance : Monad (Prog ε σ) where
  pure a := fun s => .ret a s
  bind := andThen

/-- Read a value off the state. -/
def gets (f : σ → α) : Prog ε σ α := fun s => .ret (f s) s

/-- Change the state. -/
def modify (f : σ → σ) : Prog ε σ Unit := fun s => .ret () (f s)

/-- Stop the run. -/
def halt (e : ε) : Prog ε σ α := fun s => .stop e s

/-- Run a program of a component `τ` of the state. How it ended is handed to
    the caller as a value, so a stop inside the component can be handled. -/
def embed (view : σ → τ) (put : τ → σ → σ) (m : Prog ε' τ α) : Prog ε σ (Except ε' α) := fun s =>
  match m (view s) with
  | .ret a t => .ret (.ok a) (put t s)
  | .stop e t => .ret (.error e) (put t s)

/-- Give the reasons to stop another form. -/
def mapStop (g : ε → ε') (m : Prog ε σ α) : Prog ε' σ α := fun s =>
  match m s with
  | .ret a s' => .ret a s'
  | .stop e s' => .stop (g e) s'

theorem mapStop_of_ret {g : ε → ε'} {m : Prog ε σ α} {a : α} {s s' : σ} (h : m s = .ret a s') :
    mapStop g m s = .ret a s' := by
  unfold mapStop
  rw [h]

theorem mapStop_of_stop {g : ε → ε'} {m : Prog ε σ α} {e : ε} {s s' : σ}
    (h : m s = .stop e s') : mapStop g m s = .stop (g e) s' := by
  unfold mapStop
  rw [h]

theorem embed_of_ret {view : σ → τ} {put : τ → σ → σ} {m : Prog ε' τ α} {a : α} {s : σ} {t : τ}
    (h : m (view s) = .ret a t) :
    (embed view put m : Prog ε σ _) s = .ret (.ok a) (put t s) := by
  unfold embed
  rw [h]

theorem embed_of_stop {view : σ → τ} {put : τ → σ → σ} {m : Prog ε' τ α} {e : ε'} {s : σ} {t : τ}
    (h : m (view s) = .stop e t) :
    (embed view put m : Prog ε σ _) s = .ret (.error e) (put t s) := by
  unfold embed
  rw [h]

/-- What follows a program that returns. -/
theorem bind_of_ret {m : Prog ε σ α} {f : α → Prog ε σ β} {a : α} {s s' : σ}
    (h : m s = .ret a s') : (m >>= f) s = f a s' := by
  show andThen m f s = f a s'
  unfold andThen
  rw [h]

/-- A stop is the end of the whole sequence. -/
theorem bind_of_stop {m : Prog ε σ α} {f : α → Prog ε σ β} {e : ε} {s s' : σ}
    (h : m s = .stop e s') : (m >>= f) s = .stop e s' := by
  show andThen m f s = .stop e s'
  unfold andThen
  rw [h]

/-- A sequence returns when both of its parts do. -/
theorem bind_eq_ret {m : Prog ε σ α} {f : α → Prog ε σ β} {b : β} {s s' : σ} :
    (m >>= f) s = .ret b s' ↔ ∃ a s₁, m s = .ret a s₁ ∧ f a s₁ = .ret b s' := by
  show andThen m f s = _ ↔ _
  unfold andThen
  cases hm : m s with
  | ret a s₁ =>
    constructor
    · intro h
      exact ⟨a, s₁, rfl, h⟩
    · rintro ⟨a', s₁', heq, h⟩
      cases heq
      exact h
  | stop e s₁ =>
    constructor
    · intro h
      cases h
    · rintro ⟨a', s₁', heq, _⟩
      cases heq

/-- Sequencing is associative. -/
theorem bind_bind {γ : Type} (m : Prog ε σ α) (f : α → Prog ε σ β) (g : β → Prog ε σ γ) :
    (m >>= f) >>= g = m >>= fun a => f a >>= g := by
  funext s
  show andThen (andThen m f) g s = andThen m (fun a => andThen (f a) g) s
  unfold andThen
  cases m s with
  | ret a s' => rfl
  | stop e s' => rfl

/-- The value of a program is only changed. -/
theorem bind_pure (m : Prog ε σ α) (f : α → β) (s : σ) :
    (m >>= fun a => pure (f a)) s = (m s).map f := by
  show andThen m (fun a => pure (f a)) s = _
  unfold andThen
  cases m s <;> rfl

theorem gets_bind (g : σ → α) (f : α → Prog ε σ β) (s : σ) : (gets g >>= f) s = f (g s) s := rfl

theorem modify_bind (g : σ → σ) (f : Unit → Prog ε σ β) (s : σ) :
    (modify g >>= f) s = f () (g s) := rfl

/-- Run `body` on every element of a list in turn. -/
def forEach (body : α → Prog ε σ Unit) : List α → Prog ε σ Unit
  | [] => pure ()
  | a :: rest => do
    body a
    forEach body rest

/-- A loop returns when its body does on the first element and the loop on the rest. -/
theorem forEach_cons_eq_ret {body : α → Prog ε σ Unit} {a : α} {rest : List α} {s s' : σ} :
    forEach body (a :: rest) s = .ret () s' ↔
      ∃ s₁, body a s = .ret () s₁ ∧ forEach body rest s₁ = .ret () s' := by
  constructor
  · intro h
    obtain ⟨_, s₁, hfirst, hrest⟩ := bind_eq_ret.mp h
    exact ⟨s₁, hfirst, hrest⟩
  · rintro ⟨s₁, hfirst, hrest⟩
    exact bind_eq_ret.mpr ⟨(), s₁, hfirst, hrest⟩

/-- Weakest precondition: `Q` of the value and state where the run returns, `E`
    of the reason and state where it stops. -/
def wp (m : Prog ε σ α) (Q : α → σ → Prop) (E : ε → σ → Prop) (s : σ) : Prop :=
  match m s with
  | .ret a s' => Q a s'
  | .stop e s' => E e s'

instance (m : Prog ε σ α) (Q : α → σ → Prop) (E : ε → σ → Prop) (s : σ)
    [∀ a s, Decidable (Q a s)] [∀ e s, Decidable (E e s)] : Decidable (wp m Q E s) :=
  match h : m s with
  | .ret a s' => decidable_of_iff (Q a s') (by rw [wp, h])
  | .stop e s' => decidable_of_iff (E e s') (by rw [wp, h])

section Rules

variable {Q : α → σ → Prop} {R : β → σ → Prop} {E : ε → σ → Prop} {s : σ}

@[simp] theorem wp_pure (a : α) : wp (pure a : Prog ε σ α) Q E s ↔ Q a s := Iff.rfl

@[simp] theorem wp_bind (m : Prog ε σ α) (f : α → Prog ε σ β) :
    wp (m >>= f) R E s ↔ wp m (fun a => wp (f a) R E) E s := by
  show (match andThen m f s with | .ret b s' => R b s' | .stop e s' => E e s') ↔ _
  unfold andThen wp
  cases m s <;> rfl

@[simp] theorem wp_gets (f : σ → α) : wp (gets f) Q E s ↔ Q (f s) s := Iff.rfl

@[simp] theorem wp_modify (f : σ → σ) {Q : Unit → σ → Prop} :
    wp (modify f) Q E s ↔ Q () (f s) := Iff.rfl

@[simp] theorem wp_halt (e : ε) : wp (halt e : Prog ε σ α) Q E s ↔ E e s := Iff.rfl

@[simp] theorem wp_ite {c : Prop} [Decidable c] (m n : Prog ε σ α) :
    wp (if c then m else n) Q E s ↔ if c then wp m Q E s else wp n Q E s := by
  by_cases h : c <;> simp [h]

@[simp] theorem wp_embed (view : σ → τ) (put : τ → σ → σ) (m : Prog ε' τ α)
    {Q : Except ε' α → σ → Prop} :
    wp (embed view put m) Q E s ↔
      wp m (fun a t => Q (.ok a) (put t s)) (fun e t => Q (.error e) (put t s)) (view s) := by
  unfold wp embed
  cases m (view s) <;> rfl

@[simp] theorem wp_forEach_cons (body : α → Prog ε σ Unit) (a : α) (rest : List α)
    {Q : Unit → σ → Prop} :
    wp (forEach body (a :: rest)) Q E s ↔
      wp (body a) (fun _ => wp (forEach body rest) Q E) E s := by
  simp [forEach]

theorem wp_mono {m : Prog ε σ α} {Q' : α → σ → Prop} {E' : ε → σ → Prop}
    (h : wp m Q E s) (hQ : ∀ a s', Q a s' → Q' a s') (hE : ∀ e s', E e s' → E' e s') :
    wp m Q' E' s := by
  unfold wp at h ⊢
  cases hm : m s <;> simp only [hm] at h ⊢
  · exact hQ _ _ h
  · exact hE _ _ h

theorem wp_and {m : Prog ε σ α} {Q' : α → σ → Prop} {E' : ε → σ → Prop}
    (h : wp m Q E s) (h' : wp m Q' E' s) :
    wp m (fun a s' => Q a s' ∧ Q' a s') (fun e s' => E e s' ∧ E' e s') s := by
  unfold wp at h h' ⊢
  cases hm : m s <;> simp only [hm] at h h' ⊢ <;> exact ⟨h, h'⟩

theorem wp_of_ret {m : Prog ε σ α} {a : α} {s' : σ} (h : wp m Q E s) (hm : m s = .ret a s') :
    Q a s' := by
  unfold wp at h
  rw [hm] at h
  exact h

theorem wp_of_stop {m : Prog ε σ α} {e : ε} {s' : σ} (h : wp m Q E s) (hm : m s = .stop e s') :
    E e s' := by
  unfold wp at h
  rw [hm] at h
  exact h

/-- A predicate on how a run ends is a pair of postconditions. -/
theorem wp_outcome {m : Prog ε σ α} {P : Outcome ε σ α → Prop} :
    wp m (fun a s' => P (.ret a s')) (fun e s' => P (.stop e s')) s ↔ P (m s) := by
  unfold wp
  cases m s <;> rfl

/-- Use what is known of how a run ends. -/
theorem wp_of_outcome {m : Prog ε σ α} {P : Outcome ε σ α → Prop} (h : P (m s))
    (hQ : ∀ a s', P (.ret a s') → Q a s') (hE : ∀ e s', P (.stop e s') → E e s') : wp m Q E s :=
  wp_mono (wp_outcome.mpr h) hQ hE

/-- What the rest of a program returns, however its first part ends. -/
theorem wp_bind_rest {m : Prog ε σ α} {f : α → Prog ε σ β}
    (h : ∀ a s', wp (f a) R (fun _ _ => True) s') : wp (m >>= f) R (fun _ _ => True) s := by
  rw [wp_bind]
  exact wp_of_outcome (P := fun _ => True) trivial (fun a s' _ => h a s') fun _ _ _ => trivial

end Rules

/-! ## Runs that keep an invariant and stay inside a relation, however they end -/

/-- Every run of `m` that starts in `I` relates its first state to its last, and
    ends in `I` where it returns. -/
def Guards (I : σ → Prop) (T : σ → σ → Prop) (m : Prog ε σ α) : Prop :=
  ∀ s, I s → wp m (fun _ s' => I s' ∧ T s s') (fun _ s' => T s s') s

namespace Guards

variable {I : σ → Prop} {T : σ → σ → Prop}

theorem pure (hr : ∀ s, T s s) (a : α) : Guards I T (Pure.pure a : Prog ε σ α) :=
  fun s hs => ⟨hs, hr s⟩

theorem gets (hr : ∀ s, T s s) (f : σ → α) : Guards I T (Prog.gets f : Prog ε σ α) :=
  fun s hs => ⟨hs, hr s⟩

theorem halt (hr : ∀ s, T s s) (e : ε) : Guards I T (Prog.halt e : Prog ε σ α) :=
  fun s _ => hr s

theorem modify {f : σ → σ} (h : ∀ s, I s → I (f s) ∧ T s (f s)) :
    Guards I T (Prog.modify f : Prog ε σ Unit) := h

theorem bind (ht : ∀ a b c, T a b → T b c → T a c) {m : Prog ε σ α} {f : α → Prog ε σ β}
    (hm : Guards I T m) (hf : ∀ a, Guards I T (f a)) : Guards I T (m >>= f) := by
  intro s hs
  rw [wp_bind]
  refine wp_mono (hm s hs) (fun a s' h => ?_) (fun _ _ h => h)
  obtain ⟨hs', h⟩ := h
  refine wp_mono (hf a s' hs') (fun _ s'' h' => ?_) (fun _ s'' h' => ht _ _ _ h h')
  exact ⟨h'.1, ht _ _ _ h h'.2⟩

theorem ite {c : Prop} [Decidable c] {m n : Prog ε σ α} (hm : Guards I T m)
    (hn : Guards I T n) : Guards I T (if c then m else n) := by
  by_cases h : c
  · rwa [if_pos h]
  · rwa [if_neg h]

theorem forEach (hr : ∀ s, T s s) (ht : ∀ a b c, T a b → T b c → T a c)
    {body : α → Prog ε σ Unit} (h : ∀ a, Guards I T (body a)) :
    ∀ l, Guards I T (Prog.forEach body l)
  | [] => pure hr ()
  | a :: rest => bind ht (h a) (fun _ => forEach hr ht h rest)

end Guards

end Prog
