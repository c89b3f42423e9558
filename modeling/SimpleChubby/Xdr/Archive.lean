import SimpleChubby.Lib.Buffer
import SimpleChubby.Xdr.Endian

/-!
# `xdr_generic_put` and `xdr_generic_get`

The archives of `xdrpp/marshal.h` over the buffer of a message, and the copying
of bytes in `xdrpp/marshal.cc`. Words and bytes are copied without a look at the
end of the buffer: what keeps them inside are the calls of `check` before, and
that the buffer is a multiple of four bytes long.
-/

namespace SimpleChubby

namespace Xdr

/-- Why marshaling stops: the exceptions of `xdrpp/types.h` with their texts, a
    failed assertion, or an access outside the buffer. -/
inductive XdrFault where
  | runtimeError (what : String)
  | overflow (what : String)
  | badMessageSize (what : String)
  | badDiscriminant (what : String)
  | shouldBeZero (what : String)
  | wrongUnion (what : String)
  | assertion
  | outside
  deriving DecidableEq, Repr

/-- `xdr_runtime_error` and the exceptions derived from it, of which
    `xdr_wrong_union` is none. -/
def XdrFault.IsRuntimeError : XdrFault → Prop
  | .wrongUnion _ | .assertion | .outside => False
  | _ => True

instance : DecidablePred XdrFault.IsRuntimeError := fun e => by
  cases e <;> unfold XdrFault.IsRuntimeError <;> infer_instance

/-- A step of marshaling: the state is the buffer up to `p_`, and its room up to `e_`. -/
abbrev Put (α : Type) : Type := Prog XdrFault (Filling UInt8) α

/-- A step of unmarshaling: the state is the buffer from `p_` to `e_`. -/
abbrev Get (α : Type) : Type := Prog XdrFault (List UInt8) α

/-- The number of zero bytes behind `len` bytes: the turns of `while (len & 3)`. -/
def padding (len : Nat) : Nat := (4 - len % 4) % 4

/-- Bytes with the padding behind them. -/
def padded (buf : List UInt8) : List UInt8 := buf ++ List.replicate (padding buf.length) 0

theorem four_dvd_padding (len : Nat) : 4 ∣ len + padding len := by
  unfold padding
  omega

@[simp] theorem padded_length (buf : List UInt8) :
    (padded buf).length = buf.length + padding buf.length := by
  simp [padded]

/-! ## `xdr_generic_put` -/

namespace Put

/-- `check`. -/
def check (n : Nat) : Put Unit :=
  Prog.room (.overflow "insufficient buffer space in xdr_generic_put") n

/-- The call for a type of 32 bits. -/
def uint32 (host : ByteOrder) (v : UInt32) : Put Unit := do
  check 4
  Prog.put .outside (put32 host v)

/-- The call for a type of 64 bits. -/
def uint64 (host : ByteOrder) (u : UInt64) : Put Unit := do
  check 8
  Prog.put .outside (put64 host u)

/-- The loop of `put_bytes`. -/
def zeros : Nat → Put Unit
  | 0 => pure ()
  | n + 1 => do
    Prog.put .outside [0]
    zeros n

/-- `put_bytes`. -/
def bytes (buf : List UInt8) : Put Unit := do
  Prog.put .outside buf
  zeros (padding buf.length)

/-- The call for a type of bytes with `variable_nelem`. -/
def varBytes (host : ByteOrder) (buf : List UInt8) : Put Unit := do
  check (4 + buf.length)
  Prog.put .outside (put32 host (UInt32.ofNat buf.length))
  bytes buf

/-- The call for a type of bytes of fixed size. -/
def fixedBytes (buf : List UInt8) : Put Unit := do
  check buf.length
  bytes buf

/-! ### What is written -/

theorem writes_uint32 (host : ByteOrder) (v : UInt32) : Prog.Writes (uint32 host v) (be32 v) := by
  apply Prog.Writes.room
  · rw [put32_eq]
    exact .put _ _
  · simp

theorem writes_uint64 (host : ByteOrder) (u : UInt64) : Prog.Writes (uint64 host u) (be64 u) := by
  apply Prog.Writes.room
  · rw [put64_eq]
    exact .put _ _
  · simp

theorem writes_zeros (n : Nat) : Prog.Writes (zeros n) (List.replicate n 0) := by
  induction n with
  | zero => exact .nothing
  | succ n ih =>
    rw [List.replicate_succ, ← List.singleton_append]
    exact .append (.put _ _) ih

theorem writes_bytes (buf : List UInt8) : Prog.Writes (bytes buf) (padded buf) :=
  .append (.put _ _) (writes_zeros _)

theorem writes_varBytes (host : ByteOrder) (buf : List UInt8) :
    Prog.Writes (varBytes host buf) (be32 (UInt32.ofNat buf.length) ++ padded buf) := by
  apply Prog.Writes.room
  · rw [put32_eq]
    exact .append (.put _ _) (writes_bytes buf)
  · simp

theorem writes_fixedBytes (buf : List UInt8) : Prog.Writes (fixedBytes buf) (padded buf) := by
  apply Prog.Writes.room (writes_bytes buf)
  simp

end Put

/-! ## `xdr_generic_get` -/

namespace Get

/-- `check`. -/
def check (n : Nat) : Get Unit :=
  Prog.left (.overflow "insufficient buffer space in xdr_generic_get") n

/-- The call for a type of 32 bits. -/
def uint32 (host : ByteOrder) : Get UInt32 := do
  check 4
  let bytes ← Prog.take .outside 4
  return get32 host bytes

/-- The call for a type of 64 bits. -/
def uint64 (host : ByteOrder) : Get UInt64 := do
  check 8
  let bytes ← Prog.take .outside 8
  return get64 host bytes

/-- The loop of `get_bytes`. -/
def zeros : Nat → Get Unit
  | 0 => pure ()
  | n + 1 => do
    let byte ← Prog.take .outside 1
    if byte = [0] then zeros n
    else Prog.halt (.shouldBeZero "Non-zero padding bytes encountered")

/-- `get_bytes`. -/
def bytes (len : Nat) : Get (List UInt8) := do
  let buf ← Prog.take .outside len
  zeros (padding len)
  return buf

/-- The call for a type of bytes with `variable_nelem`. The `resize` of an
    `xvector` throws beyond its bound; the one of an `xstring`, which is that of
    `std::string`, has none. -/
def varBytes (host : ByteOrder) (bound : Option UInt32) : Get (List UInt8) := do
  check 4
  let word ← Prog.take .outside 4
  let size := get32 host word
  check size.toNat
  if bound.any (· < size) then Prog.halt (.overflow "xvector overflow")
  else bytes size.toNat

/-- The call for a type of `len` bytes. -/
def fixedBytes (len : Nat) : Get (List UInt8) := do
  check len
  bytes len

/-! ### What is read -/

theorem reads_uint32 (host : ByteOrder) (v : UInt32) : Prog.Reads (uint32 host) (be32 v) v := by
  apply Prog.Reads.left
  · apply Prog.Reads.andThen (.take _ (be32_length v))
    rw [get32_be32]
    exact .nothing v
  · simp

theorem reads_uint64 (host : ByteOrder) (u : UInt64) : Prog.Reads (uint64 host) (be64 u) u := by
  apply Prog.Reads.left
  · apply Prog.Reads.andThen (.take _ (be64_length u))
    rw [get64_be64]
    exact .nothing u
  · simp

theorem reads_zeros (n : Nat) : Prog.Reads (zeros n) (List.replicate n 0) () := by
  induction n with
  | zero => exact .nothing ()
  | succ n ih =>
    rw [List.replicate_succ, ← List.singleton_append]
    exact .append (.take _ rfl) ih

theorem reads_bytes (buf : List UInt8) : Prog.Reads (bytes buf.length) (padded buf) buf := by
  apply Prog.Reads.append (.take _ rfl)
  apply Prog.Reads.andThen (reads_zeros _)
  exact .nothing buf

theorem reads_varBytes (host : ByteOrder) {bound : Option UInt32} {buf : List UInt8}
    (hbound : ∀ N, bound = some N → buf.length ≤ N.toNat) (hlt : buf.length < 2 ^ 32) :
    Prog.Reads (varBytes host bound) (be32 (UInt32.ofNat buf.length) ++ padded buf) buf := by
  have hsize : (UInt32.ofNat buf.length).toNat = buf.length := UInt32.toNat_ofNat_of_lt' hlt
  have hpass : ¬ bound.any (· < UInt32.ofNat buf.length) = true := by
    cases bound with
    | none => simp
    | some N =>
      have hN := hbound N rfl
      simp [UInt32.lt_iff_toNat_lt, hsize]
      omega
  apply Prog.Reads.left
  · apply Prog.Reads.append (.take _ (be32_length _))
    rw [get32_be32]
    simp only [hsize]
    apply Prog.Reads.left
    · rw [if_neg hpass]
      exact reads_bytes buf
    · simp
  · simp

theorem reads_fixedBytes (buf : List UInt8) :
    Prog.Reads (fixedBytes buf.length) (padded buf) buf := by
  apply Prog.Reads.left (reads_bytes buf)
  simp

/-! ### What can happen on any input -/

/-- The archive never leaves the buffer: it takes words off the front, or throws
    an `xdr_runtime_error`. -/
abbrev Parses {α : Type} (least : Nat) (Q : α → List UInt8 → Prop) (m : Get α) : Prop :=
  Prog.Parses 4 least Q XdrFault.IsRuntimeError m

theorem parses_uint32 (host : ByteOrder) :
    Parses 0 (fun _ l => l.length = 4) (uint32 host) := by
  apply Prog.Parses.left trivial
  apply Prog.Parses.map (.take (by decide))
  rintro a l ⟨-, hl⟩
  exact hl

theorem parses_uint64 (host : ByteOrder) :
    Parses 0 (fun _ l => l.length = 8) (uint64 host) := by
  apply Prog.Parses.left trivial
  apply Prog.Parses.map (.take (by decide))
  rintro a l ⟨-, hl⟩
  exact hl

/-- The padding is there, and is skipped or refused. -/
theorem wp_zeros (n : Nat) (s : List UInt8) (h : n ≤ s.length) :
    (zeros n).wp (fun _ s' => s' = s.drop n) (fun e _ => e.IsRuntimeError) s := by
  induction n generalizing s with
  | zero => exact rfl
  | succ n ih =>
    have htake : Prog.take XdrFault.outside 1 s = .ret (s.take 1) (s.drop 1) :=
      if_pos (show 1 ≤ s.length by omega)
    have hrest : n ≤ (s.drop 1).length := by
      rw [List.length_drop]
      omega
    unfold Prog.wp
    rw [zeros, Prog.bind_of_ret htake]
    by_cases hzero : s.take 1 = [0]
    · have hdrop := ih (s.drop 1) hrest
      rw [List.drop_drop, Nat.add_comm 1 n] at hdrop
      rw [if_pos hzero]
      exact hdrop
    · rw [if_neg hzero]
      trivial

theorem parses_bytes (len : Nat) :
    Parses len (fun buf l => buf.length = len ∧ l.length = len + padding len) (bytes len) := by
  intro s hs hleast
  have hpad := four_dvd_padding len
  have hfit : len + padding len ≤ s.length := by
    unfold padding at hpad ⊢
    omega
  have htake : Prog.take XdrFault.outside len s = .ret (s.take len) (s.drop len) := if_pos hleast
  have hlen : (s.take (len + padding len)).length = len + padding len :=
    List.length_take_of_le hfit
  have hzeros := wp_zeros (padding len) (s.drop len) (by
    rw [List.length_drop]
    omega)
  unfold Prog.wp
  rw [bytes, Prog.bind_of_ret htake]
  show Prog.wp _ _ _ _
  rw [Prog.wp_bind]
  refine Prog.wp_mono hzeros (fun _ s' hrest => ?_) (fun _ _ he => he)
  rw [List.drop_drop] at hrest
  refine ⟨s.take (len + padding len), ?_, hlen.symm ▸ hpad, List.length_take_of_le hleast, hlen⟩
  rw [hrest, List.take_append_drop]

/-- `bytes` of a length that a word can give and `resize` takes. -/
theorem parses_varBytes (host : ByteOrder) (bound : Option UInt32) :
    Parses 0 (fun buf l => buf.length < 2 ^ 32 ∧ (∀ N, bound = some N → buf.length ≤ N.toNat) ∧
      l.length = 4 + (buf.length + padding buf.length)) (varBytes host bound) := by
  apply Prog.Parses.left trivial
  apply Prog.Parses.bind (.take (by decide))
  rintro word l ⟨-, hl⟩
  apply Prog.Parses.left trivial
  apply Prog.Parses.ite
  · intro _
    exact .halt trivial
  · intro hbound
    apply Prog.Parses.mono (parses_bytes _)
    intro buf l' hread
    obtain ⟨hbuf, hl'⟩ := hread
    rw [List.length_append, hl, hl', hbuf]
    refine ⟨UInt32.toNat_lt _, fun N hN => ?_, rfl⟩
    subst hN
    simpa [UInt32.lt_iff_toNat_lt] using hbound

theorem parses_fixedBytes (len : Nat) :
    Parses 0 (fun buf l => buf.length = len ∧ l.length = len + padding len) (fixedBytes len) :=
  .left trivial (parses_bytes len)

end Get

end Xdr

end SimpleChubby
