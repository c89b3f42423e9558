import Mathlib.Data.List.Basic
import SimpleChubby.Lib.Prog

/-!
# Programs that fill a buffer and programs that read one

A buffer of fixed size is filled from its beginning; what is left to read of a
buffer is a list, read from the front. An access outside the buffer is a stop, so
that a program can be proved never to make one. `Writes` and `Reads` say what a
program does when all goes well; `Parses` says what it can do at all, on any
input of a multiple of a unit that is long enough for what was tested before.
-/

/-- A buffer that is being filled: what is in it, and the room behind that. -/
structure Filling (β : Type) where
  written : List β
  room : Nat
  deriving DecidableEq

/-- The buffer with `l` behind what is in it. -/
def Filling.push {β : Type} (b : Filling β) (l : List β) : Filling β :=
  ⟨b.written ++ l, b.room - l.length⟩

@[simp] theorem Filling.push_room {β : Type} (b : Filling β) (l : List β) :
    (b.push l).room = b.room - l.length := rfl

@[simp] theorem Filling.push_nil {β : Type} (b : Filling β) : b.push [] = b := by
  cases b
  simp [Filling.push]

theorem Filling.push_push {β : Type} (b : Filling β) (l l' : List β) :
    (b.push l).push l' = b.push (l ++ l') := by
  simp only [Filling.push, List.append_assoc, List.length_append, Nat.sub_sub]

namespace Prog

variable {ε α γ β : Type}

/-- Put `l` into the buffer; `outside` when it does not fit. -/
def put (outside : ε) (l : List β) : Prog ε (Filling β) Unit := fun b =>
  if l.length ≤ b.room then .ret () (b.push l) else .stop outside b

/-- Take `n` elements off the input; `outside` when there are fewer. -/
def take (outside : ε) (n : Nat) : Prog ε (List β) (List β) := fun s =>
  if n ≤ s.length then .ret (s.take n) (s.drop n) else .stop outside s

/-- Test that there is room for `n` elements. -/
def room (short : ε) (n : Nat) : Prog ε (Filling β) Unit := fun b =>
  if b.room < n then .stop short b else .ret () b

/-- Test that `n` elements are left. -/
def left (short : ε) (n : Nat) : Prog ε (List β) Unit := fun s =>
  if s.length < n then .stop short s else .ret () s

/-! ## What a program writes -/

/-- Where there is room for `l`, the program writes it. -/
def Writes (m : Prog ε (Filling β) Unit) (l : List β) : Prop :=
  ∀ b, l.length ≤ b.room → m b = .ret () (b.push l)

namespace Writes

variable {m m' : Prog ε (Filling β) Unit} {l l' : List β}

theorem nothing : Writes (pure () : Prog ε (Filling β) Unit) ([] : List β) := by
  intro b _
  rw [Filling.push_nil]
  rfl

theorem put (outside : ε) (l : List β) : Writes (Prog.put outside l) l := by
  intro b hroom
  exact if_pos hroom

/-- One piece and then another. -/
theorem append (h : Writes m l) (h' : Writes m' l') : Writes (m >>= fun _ => m') (l ++ l') := by
  intro b hroom
  rw [List.length_append] at hroom
  rw [bind_of_ret (h b (by omega)), h' _ (by simp; omega), Filling.push_push]

/-- A test for no more room than is used. -/
theorem room {short : ε} {n : Nat} (h : Writes m l) (hn : n ≤ l.length) :
    Writes (Prog.room short n >>= fun _ => m) l := by
  intro b hroom
  have hpass : Prog.room short n b = .ret () b := if_neg (by omega)
  rw [bind_of_ret hpass]
  exact h b hroom

/-- A loop writes what its turns write. -/
theorem forEach {body : α → Prog ε (Filling β) Unit} {piece : α → List β} (as : List α)
    (h : ∀ a ∈ as, Writes (body a) (piece a)) :
    Writes (Prog.forEach body as) (as.flatMap piece) := by
  induction as with
  | nil => exact nothing
  | cons a rest ih =>
    rw [List.flatMap_cons]
    exact append (h a List.mem_cons_self) (ih fun a' ha' => h a' (List.mem_cons_of_mem _ ha'))

end Writes

/-! ## What a program reads -/

/-- From an input that starts with `l`, the program reads the value `a` and
    leaves what is behind `l`. -/
def Reads (m : Prog ε (List β) α) (l : List β) (a : α) : Prop :=
  ∀ rest, m (l ++ rest) = .ret a rest

namespace Reads

variable {m : Prog ε (List β) α} {f : α → Prog ε (List β) γ} {l l' : List β} {a : α} {c : γ}

theorem nothing (a : α) : Reads (pure a : Prog ε (List β) α) ([] : List β) a := fun _ => rfl

theorem take (outside : ε) {n : Nat} (h : l.length = n) : Reads (Prog.take outside n) l l := by
  intro rest
  subst h
  simp [Prog.take]

/-- One value and then another. -/
theorem append (h : Reads m l a) (h' : Reads (f a) l' c) : Reads (m >>= f) (l ++ l') c := by
  intro rest
  rw [List.append_assoc, bind_of_ret (h _), h' rest]

/-- A value and what is made of it. -/
theorem andThen (h : Reads m l a) (h' : Reads (f a) [] c) : Reads (m >>= f) l c := by
  have happend := h.append h'
  rwa [List.append_nil] at happend

/-- A test for no more than is read. -/
theorem left {short : ε} {n : Nat} (h : Reads m l a) (hn : n ≤ l.length) :
    Reads (Prog.left short n >>= fun _ => m) l a := by
  intro rest
  have hpass : Prog.left short n (l ++ rest) = .ret () (l ++ rest) := by
    apply if_neg
    rw [List.length_append]
    omega
  rw [bind_of_ret hpass]
  exact h rest

end Reads

/-! ## What a program can do -/

/-- On an input of a multiple of `unit` elements, and of at least `least`, the
    program takes a multiple of `unit` elements off the front, related to its
    value by `Q`, or stops for a reason in `E`. -/
def Parses (unit least : Nat) (Q : α → List β → Prop) (E : ε → Prop) (m : Prog ε (List β) α) :
    Prop :=
  ∀ s, unit ∣ s.length → least ≤ s.length →
    wp m (fun a s' => ∃ l, s = l ++ s' ∧ unit ∣ l.length ∧ Q a l) (fun e _ => E e) s

namespace Parses

variable {unit least : Nat} {Q Q' : α → List β → Prop} {R : γ → List β → Prop} {E : ε → Prop}
  {m : Prog ε (List β) α} {f : α → Prog ε (List β) γ}

theorem nothing {a : α} (h : Q a []) : Parses unit least Q E (pure a : Prog ε (List β) α) := by
  intro s _ _
  exact ⟨[], rfl, Nat.dvd_zero _, h⟩

theorem halt {e : ε} (h : E e) : Parses unit least Q E (Prog.halt e : Prog ε (List β) α) := by
  intro s _ _
  exact h

/-- The input is long enough for what is taken. -/
theorem take {outside : ε} {n : Nat} (hunit : unit ∣ n) :
    Parses unit n (fun a l => a = l ∧ l.length = n) E
      (Prog.take outside n : Prog ε (List β) (List β)) := by
  intro s hs hleast
  have htake : (s.take n).length = n := List.length_take_of_le hleast
  have hrun : Prog.take outside n s = .ret (s.take n) (s.drop n) := if_pos hleast
  unfold wp
  rw [hrun]
  exact ⟨s.take n, (List.take_append_drop n s).symm, htake.symm ▸ hunit, rfl, htake⟩

theorem mono (h : Parses unit least Q E m) (hQ : ∀ a l, Q a l → Q' a l) :
    Parses unit least Q' E m := by
  intro s hs hleast
  refine wp_mono (h s hs hleast) (fun a s' hpost => ?_) (fun _ _ he => he)
  obtain ⟨l, hl, hunit, hq⟩ := hpost
  exact ⟨l, hl, hunit, hQ a l hq⟩

/-- After a test for `n` elements there are as many. -/
theorem left {short : ε} {n : Nat} (he : E short) (h : Parses unit n Q E m) :
    Parses unit 0 Q E (Prog.left short n >>= fun _ => m) := by
  intro s hs _
  by_cases hshort : s.length < n
  · have hstop : Prog.left short n s = .stop short s := if_pos hshort
    unfold wp
    rw [bind_of_stop hstop]
    exact he
  · have hpass : Prog.left short n s = .ret () s := if_neg hshort
    have hpost := h s hs (by omega)
    unfold wp at hpost ⊢
    rwa [bind_of_ret hpass]

/-- One part and then another. -/
theorem bind (h : Parses unit least Q E m)
    (h' : ∀ a l, Q a l → Parses unit 0 (fun c l' => R c (l ++ l')) E (f a)) :
    Parses unit least R E (m >>= f) := by
  intro s hs hleast
  rw [wp_bind]
  refine wp_mono (h s hs hleast) (fun a s₁ hpost => ?_) (fun _ _ he => he)
  obtain ⟨l, rfl, hunit, hq⟩ := hpost
  have hrest : unit ∣ s₁.length := by
    rw [List.length_append] at hs
    exact (Nat.dvd_add_right hunit).mp hs
  refine wp_mono (h' a l hq s₁ hrest (Nat.zero_le _)) (fun c s₂ hpost => ?_) (fun _ _ he => he)
  obtain ⟨l', rfl, hunit', hr⟩ := hpost
  refine ⟨l ++ l', (List.append_assoc _ _ _).symm, ?_, hr⟩
  rw [List.length_append]
  exact Nat.dvd_add hunit hunit'

/-- A value and what is made of it. -/
theorem map (h : Parses unit least Q E m) {g : α → γ} (h' : ∀ a l, Q a l → R (g a) l) :
    Parses unit least R E (m >>= fun a => pure (g a)) := by
  apply bind h
  intro a l hq
  apply nothing
  rw [List.append_nil]
  exact h' a l hq

theorem ite {c : Prop} [Decidable c] {m' : Prog ε (List β) α} (h : c → Parses unit least Q E m)
    (h' : ¬ c → Parses unit least Q E m') : Parses unit least Q E (if c then m else m') := by
  by_cases hc : c
  · rw [if_pos hc]
    exact h hc
  · rw [if_neg hc]
    exact h' hc

end Parses

end Prog
