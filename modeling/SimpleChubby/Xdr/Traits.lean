import Mathlib.Logic.Equiv.Defs
import Mathlib.Tactic.SplitIfs
import SimpleChubby.Path
import SimpleChubby.Xdr.Archive

/-!
# `xdr_traits`

The traits of `xdrpp/types.h` by which an archive goes over a value, and those
that `xdrc/gen_hh.cc` writes for structures and unions. An object is loaded in
place: `load` has the object before as an argument. One `Char` of a string is
one byte.
-/

namespace SimpleChubby

namespace Xdr

/-- `xdr_traits<T>`, and the object `T{}`. -/
structure XdrTraits (T : Type) where
  fresh : T
  /-- `fixed_size`, where `has_fixed_size`. -/
  fixedSize : Option Nat
  serialSize : T → Nat
  save : ByteOrder → T → Put Unit
  load : ByteOrder → T → Get T

/-- `XDR_MAX_LEN`. -/
def xdrMaxLen : UInt32 := 0xfffffffc

/-! ## Numbers -/

/-- `xdr_traits<std::uint32_t>`, also that of an `enum`. -/
def uint32 : XdrTraits UInt32 where
  fresh := 0
  fixedSize := some 4
  serialSize _ := 4
  save := Put.uint32
  load host _ := Get.uint32 host

/-- `xdr_traits<std::uint64_t>`. -/
def uint64 : XdrTraits UInt64 where
  fresh := 0
  fixedSize := some 8
  serialSize _ := 8
  save := Put.uint64
  load host _ := Get.uint64 host

/-- `xdr_traits<bool>`. Every number but 0 is read as `true`. -/
def bool : XdrTraits Bool where
  fresh := false
  fixedSize := some 4
  serialSize _ := 4
  save host b := Put.uint32 host (if b then 1 else 0)
  load host _ := do
    let u ← Get.uint32 host
    return u != 0

/-! ## Bytes -/

/-- `xdr_traits<opaque_vec<N>>`. -/
def opaqueVec (N : UInt32) : XdrTraits (List UInt8) where
  fresh := []
  fixedSize := none
  serialSize a := (a.length + 7) / 4 * 4
  save := Put.varBytes
  load host _ := Get.varBytes host (some N)

/-- `xdr_traits<opaque_array<N>>`. -/
def opaqueArray (N : Nat) : XdrTraits (Fin N → UInt8) where
  fresh _ := 0
  fixedSize := some ((N + 3) / 4 * 4)
  serialSize _ := (N + 3) / 4 * 4
  save _ a := Put.fixedBytes (List.ofFn a)
  load _ _ := do
    let buf ← Get.fixedBytes N
    return fun i => buf.getD i 0

/-- The bytes of a string. -/
def bytesOf (s : Str) : List UInt8 := s.map fun c => UInt8.ofNat c.toNat

/-- The string of the bytes. -/
def strOf (bytes : List UInt8) : Str := bytes.map fun b => Char.ofNat b.toNat

/-- `xdr_traits<xstring<N>>`; of `N` neither `save` nor `load` takes notice. -/
def xstring : XdrTraits Str where
  fresh := []
  fixedSize := none
  serialSize a := (a.length + 7) / 4 * 4
  save host a := Put.varBytes host (bytesOf a)
  load host _ := do
    let bytes ← Get.varBytes host none
    return strOf bytes

/-! ## Containers -/

section Container

variable {T : Type} (t : XdrTraits T)

/-- The loop of `load`: `n` more elements, the first at the position `i`, over
    the elements `old` that are there. -/
def loadElements (host : ByteOrder) (N : UInt32) : Nat → Nat → List T → Get (List T)
  | _, 0, _ => pure []
  | i, n + 1, old =>
    if N.toNat ≤ i then
      Prog.halt (.overflow "attempt to access invalid position in xdr::xvector")
    else do
      let v ← t.load host (old.headD t.fresh)
      let rest ← loadElements host N (i + 1) n old.tail
      return v :: rest

/-- `xdr_traits<xvector<T, N>>`. -/
def xvector (N : UInt32) : XdrTraits (List T) where
  fresh := []
  fixedSize := none
  serialSize l :=
    match t.fixedSize with
    | some n => 4 + l.length * n
    | none => 4 + (l.map t.serialSize).sum
  save host l := do
    Put.uint32 host (UInt32.ofNat l.length)
    Prog.forEach (t.save host) l
  load host old := do
    let n ← Get.uint32 host
    if N < n then Prog.halt (.overflow "xvector overflow")
    else loadElements t host N 0 n.toNat old

end Container

/-! ## Structures -/

/-- `xdr_struct_base<>`, also `xdr_traits<xdr_void>`. -/
def structEnd : XdrTraits Unit where
  fresh := ()
  fixedSize := some 0
  serialSize _ := 0
  save _ _ := pure ()
  load _ _ := pure ()

section Struct

variable {A B S : Type}

/-- `xdr_struct_base<FP, Rest...>`, and the calls of `archive` for the fields. -/
def field (a : XdrTraits A) (rest : XdrTraits B) : XdrTraits (A × B) where
  fresh := (a.fresh, rest.fresh)
  fixedSize :=
    match a.fixedSize, rest.fixedSize with
    | some m, some n => some (m + n)
    | _, _ => none
  serialSize v :=
    match a.fixedSize, rest.fixedSize with
    | some m, some n => m + n
    | _, _ => a.serialSize v.1 + rest.serialSize v.2
  save host v := do
    a.save host v.1
    rest.save host v.2
  load host old := do
    let x ← a.load host old.1
    let y ← rest.load host old.2
    return (x, y)

/-- The traits of a structure with the fields `e`. -/
def struct (e : S ≃ A) (fields : XdrTraits A) : XdrTraits S where
  fresh := e.symm fields.fresh
  fixedSize := fields.fixedSize
  serialSize v := fields.serialSize (e v)
  save host v := fields.save host (e v)
  load host old := do
    let v ← fields.load host (e old)
    return e.symm v

end Struct

/-! ## Unions -/

/-- What `gen_hh.cc` takes from the declaration of a union: the number of the
    field for a discriminant, where it has one, and the fields. -/
structure XdrUnion where
  /-- The text of `xdr_bad_discriminant`. -/
  badValue : String
  /-- The discriminant of a word that is read: a `bool` is 0 or 1. -/
  readTag : UInt32 → UInt32
  Arm : Type
  [decArm : DecidableEq Arm]
  fieldNumber : UInt32 → Option Arm
  Field : Arm → Type
  traits : (arm : Arm) → XdrTraits (Field arm)
  zeroArm : Arm
  fieldNumber_zero : fieldNumber 0 = some zeroArm

namespace XdrUnion

variable (u : XdrUnion)

instance : DecidableEq u.Arm := u.decArm

/-- An object of the union: a discriminant that has a field, and this field. -/
structure Obj where
  disc : UInt32
  arm : u.Arm
  named : u.fieldNumber disc = some arm
  field : u.Field arm

/-- The default constructor. -/
def fresh : u.Obj := ⟨0, u.zeroArm, u.fieldNumber_zero, (u.traits u.zeroArm).fresh⟩

/-- `_xdr_discriminant(which)`. The object is destroyed and made again only where
    the field changes; otherwise it keeps its discriminant, too. -/
def discriminant (which : UInt32) (old : u.Obj) : Except XdrFault u.Obj :=
  match h : u.fieldNumber which with
  | none => .error (.badDiscriminant u.badValue)
  | some arm => if arm = old.arm then .ok old else .ok ⟨which, arm, h, (u.traits arm).fresh⟩

variable {u} in
/-- A discriminant of the field that is there changes nothing. -/
theorem discriminant_same {which : UInt32} {old : u.Obj}
    (h : u.fieldNumber which = some old.arm) : u.discriminant which old = .ok old := by
  unfold discriminant
  split
  case h_1 hnone => simp [h] at hnone
  case h_2 arm hsome =>
    rw [h] at hsome
    exact if_pos (Option.some.inj hsome).symm

variable {u} in
/-- A discriminant of another field makes a new object. -/
theorem discriminant_other {which : UInt32} {arm : u.Arm} (h : u.fieldNumber which = some arm)
    {old : u.Obj} (hne : arm ≠ old.arm) :
    u.discriminant which old = .ok ⟨which, arm, h, (u.traits arm).fresh⟩ := by
  unfold discriminant
  split
  case h_1 hnone => simp [h] at hnone
  case h_2 arm' hsome =>
    obtain rfl : arm = arm' := Option.some.inj (h.symm.trans hsome)
    exact if_neg hne

variable {u} in
theorem discriminant_error {which : UInt32} {old : u.Obj} {e : XdrFault}
    (h : u.discriminant which old = .error e) : e = .badDiscriminant u.badValue := by
  unfold discriminant at h
  split at h
  case h_1 =>
    injection h with he
    exact he.symm
  case h_2 arm _ => split_ifs at h

/-- The end of `load`, when the discriminant has been set. -/
def loadField (host : ByteOrder) : Except XdrFault u.Obj → Get u.Obj
  | .error e => Prog.halt e
  | .ok obj => do
    let f ← (u.traits obj.arm).load host obj.field
    return { obj with field := f }

/-- `xdr_traits` of the union. -/
def unionTraits : XdrTraits u.Obj where
  fresh := u.fresh
  fixedSize := none
  serialSize obj := (u.traits obj.arm).serialSize obj.field + 4
  save host obj := do
    Put.uint32 host obj.disc
    (u.traits obj.arm).save host obj.field
  load host old := do
    let which ← Get.uint32 host
    u.loadField host (u.discriminant (u.readTag which) old)

end XdrUnion

end Xdr

end SimpleChubby
