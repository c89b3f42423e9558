import SimpleChubby.Session.MsgSock
import SimpleChubby.Xdr.Format

/-!
# `xdr_to_msg` and `xdr_from_msg`

A value is marshaled into a new message of just its size, and a message is
unmarshaled into an object (`xdrpp/marshal.h:181-241`). What is written by a
machine of one byte order is read by a machine of the other; and whatever bytes
a message holds, unmarshaling it stays inside them.
-/

namespace SimpleChubby

namespace Xdr

section

variable {T A B : Type}

/-- Two arguments of `xdr_to_msg`: `xdr_argpack_size` and `xdr_argpack_archive`. -/
def argpack (a : XdrTraits A) (b : XdrTraits B) : XdrTraits (A × B) where
  fresh := (a.fresh, b.fresh)
  fixedSize := none
  serialSize v := a.serialSize v.1 + b.serialSize v.2
  save host v := do
    a.save host v.1
    b.save host v.2
  load host old := do
    let x ← a.load host old.1
    let y ← b.load host old.2
    return (x, y)

/-- `xdr_to_msg`. -/
def xdrToMsg (host : ByteOrder) (t : XdrTraits T) (v : T) : Except XdrFault Message :=
  let size := t.serialSize v
  if halloc : size < 0x80000000 then
    if size % 4 ≠ 0 then .error .assertion
    else
      match t.save host v ⟨[], size⟩ with
      | .stop e _ => .error e
      | .ret _ b =>
        if hend : b.written.length = size then .ok ⟨b.written, hend ▸ halloc⟩
        else .error .assertion
  else .error .assertion

/-- The object is loaded from all of the bytes; `what` is the text where some are left. -/
def loadAll (host : ByteOrder) (t : XdrTraits T) (old : T) (what : String)
    (bytes : List UInt8) : Except XdrFault T :=
  match t.load host old bytes with
  | .stop e _ => .error e
  | .ret v rest => if rest = [] then .ok v else .error (.badMessageSize what)

/-- The constructor of `xdr_generic_get`: the bytes of the message. -/
def startGet (m : Message) : Except XdrFault (List UInt8) :=
  if m.data.length % 4 ≠ 0 then
    .error (.badMessageSize "xdr_generic_get: message size not multiple of 4")
  else .ok m.data

/-- `xdr_from_msg`, into the object `old`. -/
def xdrFromMsg (host : ByteOrder) (t : XdrTraits T) (m : Message) (old : T) :
    Except XdrFault T := do
  let bytes ← startGet m
  loadAll host t old "xdr_from_message did not consume whole message" bytes

/-- Go on with what has been marshaled or unmarshaled. -/
def orThrow {α ε σ : Type} (fault : XdrFault → ε) : Except XdrFault α → Prog ε σ α
  | .ok a => pure a
  | .error e => Prog.halt (fault e)

/-- `message_t::alloc` and a `memcpy` into it. -/
def messageOf (bytes : List UInt8) : Except XdrFault Message :=
  if h : bytes.length < 0x80000000 then .ok ⟨bytes, h⟩ else .error .assertion

/-- The arguments are marshaled one after the other. -/
def XdrFormat.argpack {a : XdrTraits A} {b : XdrTraits B} (first : XdrFormat a)
    (second : XdrFormat b) : XdrFormat (Xdr.argpack a b) where
  encode v := first.encode v.1 ++ second.encode v.2
  Fits v := first.Fits v.1 ∧ second.Fits v.2
  aligned := (first.field second).aligned
  serialSize_eq v := by
    rw [List.length_append, ← first.serialSize_eq, ← second.serialSize_eq]
    rfl
  fixed n h := by simp [Xdr.argpack] at h
  writes := (first.field second).writes
  reads := (first.field second).reads
  parses := (first.field second).parses

theorem XdrFormat.argpack_encode {a : XdrTraits A} {b : XdrTraits B} (first : XdrFormat a)
    (second : XdrFormat b) (v : A × B) :
    (first.argpack second).encode v = first.encode v.1 ++ second.encode v.2 := rfl

variable {t : XdrTraits T} (fmt : XdrFormat t)

/-- Marshaling fills the message to its end and not further; only a value of
    2^31 bytes or more fails an assertion. -/
theorem xdrToMsg_eq (host : ByteOrder) (v : T) :
    xdrToMsg host t v =
      if h : (fmt.encode v).length < 0x80000000 then .ok ⟨fmt.encode v, h⟩
      else .error .assertion := by
  have hsize := fmt.serialSize_eq v
  have haligned := Nat.mod_eq_zero_of_dvd (fmt.aligned v)
  unfold xdrToMsg
  simp only [hsize]
  by_cases halloc : (fmt.encode v).length < 0x80000000
  · have hsave := fmt.writes host v ⟨[], (fmt.encode v).length⟩ (Nat.le_refl _)
    rw [dif_pos halloc, dif_pos halloc, if_neg (not_not.mpr haligned), hsave]
    exact dif_pos rfl
  · rw [dif_neg halloc, dif_neg halloc]

/-- The bytes of a value are a message if they are short enough. -/
theorem xdrToMsg_cases (host : ByteOrder) (v : T) :
    (¬ (fmt.encode v).length < 0x80000000 ∧ xdrToMsg host t v = .error .assertion) ∨
      (fmt.encode v).length < 0x80000000 ∧ ∃ m, xdrToMsg host t v = .ok m := by
  rw [xdrToMsg_eq fmt]
  by_cases h : (fmt.encode v).length < 0x80000000
  · exact Or.inr ⟨h, ⟨fmt.encode v, h⟩, dif_pos h⟩
  · exact Or.inl ⟨h, dif_neg h⟩

/-- The message of a value, whatever machine makes it. -/
theorem data_of_xdrToMsg {host : ByteOrder} {v : T} {m : Message}
    (h : xdrToMsg host t v = .ok m) : m.data = fmt.encode v := by
  rw [xdrToMsg_eq fmt] at h
  split_ifs at h
  injection h with hm
  rw [← hm]

/-- The message of a value can be unmarshaled. -/
theorem startGet_of_xdrToMsg {host : ByteOrder} {v : T} {m : Message}
    (h : xdrToMsg host t v = .ok m) : startGet m = .ok (fmt.encode v) := by
  have hdata := data_of_xdrToMsg fmt h
  have haligned := Nat.mod_eq_zero_of_dvd (fmt.aligned v)
  unfold startGet
  rw [hdata, if_neg (not_not.mpr haligned)]

/-- What can be unmarshaled are words. -/
theorem startGet_eq_ok {m : Message} {bytes : List UInt8} (h : startGet m = .ok bytes) :
    bytes = m.data ∧ 4 ∣ bytes.length := by
  unfold startGet at h
  split_ifs at h with hodd
  injection h with hbytes
  subst hbytes
  exact ⟨rfl, Nat.dvd_of_mod_eq_zero (not_not.mp hodd)⟩

/-- What is in a message is short enough to be read. -/
theorem length_of_startGet {m : Message} {bytes : List UInt8} (h : startGet m = .ok bytes) :
    bytes.length < 2 ^ 32 := by
  have hshort := m.short
  obtain ⟨rfl, _⟩ := startGet_eq_ok h
  omega

theorem startGet_error {m : Message} {e : XdrFault} (h : startGet m = .error e) :
    e.IsRuntimeError := by
  unfold startGet at h
  split_ifs at h
  injection h with he
  subst he
  trivial

/-- A new object is loaded from the bytes of a value. -/
theorem loadAll_encode (host : ByteOrder) {v : T} (hfits : fmt.Fits v)
    (hlen : (fmt.encode v).length < 2 ^ 32) (what : String) :
    loadAll host t t.fresh what (fmt.encode v) = .ok v := by
  have hread := fmt.reads host v hfits hlen []
  rw [List.append_nil] at hread
  unfold loadAll
  rw [hread]
  exact if_pos rfl

/-- From any words a value within the bounds of the type is loaded which is as
    long as they are, or an `xdr_runtime_error` is thrown. -/
theorem loadAll_safe (host : ByteOrder) (old : T) (what : String) {bytes : List UInt8}
    (hbytes : 4 ∣ bytes.length) :
    match loadAll host t old what bytes with
    | .ok v => fmt.Fits v ∧ t.serialSize v = bytes.length
    | .error e => e.IsRuntimeError := by
  have hsafe := fmt.parses host old bytes hbytes (Nat.zero_le _)
  unfold Prog.wp at hsafe
  unfold loadAll
  cases hload : t.load host old bytes with
  | stop e s =>
    rw [hload] at hsafe
    exact hsafe
  | ret v rest =>
    rw [hload] at hsafe
    obtain ⟨l, hl, _, hfits, hlen⟩ := hsafe
    by_cases hrest : rest = []
    · rw [hrest, List.append_nil] at hl
      simp only [hrest, if_pos]
      exact ⟨hfits, by rw [fmt.serialSize_eq, hl, hlen]⟩
    · simp only [hrest, if_false]
      trivial

/-- A value comes back from its message, on a machine of either byte order. -/
theorem xdrFromMsg_xdrToMsg {host : ByteOrder} {v : T} {m : Message} (hfits : fmt.Fits v)
    (h : xdrToMsg host t v = .ok m) (host' : ByteOrder) :
    xdrFromMsg host' t m t.fresh = .ok v := by
  have hlen := m.short
  rw [data_of_xdrToMsg fmt h] at hlen
  unfold xdrFromMsg
  rw [startGet_of_xdrToMsg fmt h]
  exact loadAll_encode fmt host' hfits (by omega) _

/-- Whatever a message holds and whatever the object was before, unmarshaling
    ends in a value within the bounds of its type whose size is that of the
    message, or in an `xdr_runtime_error`: not outside the buffer and not in a
    failed assertion. -/
theorem xdrFromMsg_safe (host : ByteOrder) (m : Message) (old : T) :
    match xdrFromMsg host t m old with
    | .ok v => fmt.Fits v ∧ t.serialSize v = m.data.length
    | .error e => e.IsRuntimeError := by
  unfold xdrFromMsg
  cases hstart : startGet m with
  | error e => exact startGet_error hstart
  | ok bytes =>
    obtain ⟨rfl, hbytes⟩ := startGet_eq_ok hstart
    exact loadAll_safe fmt host old _ hbytes

end

/-! ## In a program -/

section Program

variable {α β ε σ : Type}

theorem orThrow_ok (fault : XdrFault → ε) (a : α) (f : α → Prog ε σ β) :
    orThrow fault (.ok a) >>= f = f a := rfl

theorem orThrow_error (fault : XdrFault → ε) (e : XdrFault) (f : α → Prog ε σ β) :
    orThrow fault (.error e) >>= f = Prog.halt (fault e) := rfl

theorem messageOf_data (m : Message) : messageOf m.data = .ok m := dif_pos m.short

end Program

end Xdr

end SimpleChubby
