import SimpleChubby.Xdr.Traits

/-!
# The format of a type

`XdrFormat` is what RFC 4506 says of a type, with the proof that its traits do
it: the bytes of a value, whatever machine writes them; that `serial_size` counts
them; that a new object read from them is the value again, if their number has
32 bits; and that from any bytes at all a value of the type is read, or an
`xdr_runtime_error` is thrown, without a step outside the buffer. Each trait of
`Xdr/Traits.lean` has a format if its parts have.
-/

namespace SimpleChubby

namespace Xdr

/-- The format that the traits of a type follow. -/
structure XdrFormat {T : Type} (t : XdrTraits T) where
  /-- The bytes of a value. -/
  encode : T → List UInt8
  /-- The values within the bounds of the type. -/
  Fits : T → Prop
  aligned : ∀ v, 4 ∣ (encode v).length
  serialSize_eq : ∀ v, t.serialSize v = (encode v).length
  fixed : ∀ n, t.fixedSize = some n → ∀ v, (encode v).length = n
  writes : ∀ host v, Prog.Writes (t.save host v) (encode v)
  reads : ∀ host v, Fits v → (encode v).length < 2 ^ 32 →
    Prog.Reads (t.load host t.fresh) (encode v) v
  parses : ∀ host old,
    Get.Parses 0 (fun v l => Fits v ∧ l.length = (encode v).length) (t.load host old)

namespace XdrFormat

/-! ## Numbers -/

/-- A word of four bytes. -/
def uint32 : XdrFormat Xdr.uint32 where
  encode := be32
  Fits _ := True
  aligned v := by simp
  serialSize_eq _ := rfl
  fixed n h v := by simpa [Xdr.uint32] using h
  writes := Put.writes_uint32
  reads host v _ _ := Get.reads_uint32 host v
  parses host _ := (Get.parses_uint32 host).mono fun _ _ hl => ⟨trivial, hl⟩

/-- A word of eight bytes. -/
def uint64 : XdrFormat Xdr.uint64 where
  encode := be64
  Fits _ := True
  aligned v := by simp
  serialSize_eq _ := rfl
  fixed n h v := by simpa [Xdr.uint64] using h
  writes := Put.writes_uint64
  reads host v _ _ := Get.reads_uint64 host v
  parses host _ := (Get.parses_uint64 host).mono fun _ _ hl => ⟨trivial, hl⟩

/-- A word that is 0 or 1; every other word is read as `true`. -/
def bool : XdrFormat Xdr.bool where
  encode b := be32 (if b then 1 else 0)
  Fits _ := True
  aligned v := by simp
  serialSize_eq _ := rfl
  fixed n h v := by simpa [Xdr.bool] using h
  writes host b := Put.writes_uint32 host _
  reads host b _ _ := by
    apply Prog.Reads.andThen (Get.reads_uint32 host _)
    cases b with
    | false => exact .nothing _
    | true => exact .nothing _
  parses host _ := (Get.parses_uint32 host).map fun _ _ hl => ⟨trivial, hl⟩

/-! ## Bytes -/

/-- The length and the bytes, with the padding: `serial_size` counts them. -/
theorem varBytes_length (buf : List UInt8) :
    (be32 (UInt32.ofNat buf.length) ++ padded buf).length = (buf.length + 7) / 4 * 4 := by
  simp [padding]
  omega

theorem varBytes_aligned (buf : List UInt8) :
    4 ∣ (be32 (UInt32.ofNat buf.length) ++ padded buf).length := by
  rw [varBytes_length]
  exact Nat.dvd_mul_left 4 _

/-- The length in a word, the bytes, and zeros up to a multiple of four. -/
def opaqueVec (N : UInt32) : XdrFormat (Xdr.opaqueVec N) where
  encode buf := be32 (UInt32.ofNat buf.length) ++ padded buf
  Fits buf := buf.length ≤ N.toNat
  aligned := varBytes_aligned
  serialSize_eq buf := (varBytes_length buf).symm
  fixed n h := by simp [Xdr.opaqueVec] at h
  writes := Put.writes_varBytes
  reads host buf hfits _ := by
    have hN := N.toNat_lt
    apply Get.reads_varBytes host
    · intro N' hN'
      cases hN'
      exact hfits
    · omega
  parses host _ := by
    apply (Get.parses_varBytes host (some N)).mono
    intro buf l hread
    obtain ⟨_, hbound, hl⟩ := hread
    exact ⟨hbound N rfl, by simp [hl]⟩

/-- The bytes of an array of fixed length, which is not written, with the padding. -/
def opaqueArray (N : Nat) : XdrFormat (Xdr.opaqueArray N) where
  encode a := padded (List.ofFn a)
  Fits _ := True
  aligned a := by
    rw [padded_length]
    exact four_dvd_padding _
  serialSize_eq a := by
    simp [Xdr.opaqueArray, padding]
    omega
  fixed n h a := by
    simp [Xdr.opaqueArray] at h
    simp [padding]
    omega
  writes _ a := Put.writes_fixedBytes _
  reads _ a _ _ := by
    have hread := Get.reads_fixedBytes (List.ofFn a)
    rw [List.length_ofFn] at hread
    apply Prog.Reads.andThen hread
    have hsame : (fun i : Fin N => (List.ofFn a).getD i 0) = a := by
      funext i
      simp
    rw [hsame]
    exact .nothing a
  parses _ _ := by
    apply (Get.parses_fixedBytes N).map
    intro buf l hread
    obtain ⟨_, hl⟩ := hread
    exact ⟨trivial, by simp [hl]⟩

/-- The characters are bytes. -/
def IsBytes (s : Str) : Prop := ∀ c ∈ s, c.toNat < 256

@[simp] theorem isBytes_nil : IsBytes [] := fun _ hc => by cases hc

@[simp] theorem isBytes_cons {c : Char} {s : Str} :
    IsBytes (c :: s) ↔ c.toNat < 256 ∧ IsBytes s := List.forall_mem_cons

theorem strOf_bytesOf {s : Str} (h : IsBytes s) : strOf (bytesOf s) = s := by
  induction s with
  | nil => rfl
  | cons c s ih =>
    have hc := h c List.mem_cons_self
    have hs := ih fun c' hc' => h c' (List.mem_cons_of_mem _ hc')
    have hsame : Char.ofNat (UInt8.ofNat c.toNat).toNat = c := by
      rw [UInt8.toNat_ofNat_of_lt' hc, Char.ofNat_toNat]
    unfold strOf bytesOf at hs ⊢
    rw [List.map_cons, List.map_cons, hsame, hs]

theorem toNat_ofNat_byte (b : UInt8) : (Char.ofNat b.toNat).toNat = b.toNat := by
  have hb := b.toNat_lt
  have hvalid : b.toNat.isValidChar := Or.inl (by omega)
  unfold Char.ofNat
  rw [dif_pos hvalid]
  rfl

theorem isBytes_strOf (bytes : List UInt8) : IsBytes (strOf bytes) := by
  intro c hc
  obtain ⟨b, _, rfl⟩ := List.mem_map.mp hc
  rw [toNat_ofNat_byte]
  exact b.toNat_lt

@[simp] theorem bytesOf_length (s : Str) : (bytesOf s).length = s.length := List.length_map _

@[simp] theorem strOf_length (bytes : List UInt8) : (strOf bytes).length = bytes.length :=
  List.length_map _

/-- The length in a word and the bytes of the string, with the padding. -/
def xstring : XdrFormat Xdr.xstring where
  encode s := be32 (UInt32.ofNat (bytesOf s).length) ++ padded (bytesOf s)
  Fits := IsBytes
  aligned s := varBytes_aligned _
  serialSize_eq s := by
    rw [varBytes_length, bytesOf_length]
    rfl
  fixed n h := by simp [Xdr.xstring] at h
  writes host s := Put.writes_varBytes host _
  reads host s hfits hlen := by
    rw [varBytes_length] at hlen
    have hread : Prog.Reads (Get.varBytes host none) _ (bytesOf s) :=
      Get.reads_varBytes host (fun _ h => by cases h) (by omega)
    apply Prog.Reads.andThen hread
    rw [strOf_bytesOf hfits]
    exact .nothing s
  parses host _ := by
    apply (Get.parses_varBytes host none).map
    intro buf l hread
    obtain ⟨_, _, hl⟩ := hread
    exact ⟨isBytes_strOf buf, by simp [hl]⟩

/-! ## Containers -/

section Container

variable {T : Type} {t : XdrTraits T} (fmt : XdrFormat t)

/-- The bytes of the elements. -/
def encodeElements (l : List T) : List UInt8 := l.flatMap fmt.encode

theorem encodeElements_length (l : List T) :
    (fmt.encodeElements l).length = (l.map t.serialSize).sum := by
  induction l with
  | nil => rfl
  | cons v l ih =>
    have hv := fmt.serialSize_eq v
    simp only [encodeElements, List.flatMap_cons, List.length_append, List.map_cons,
      List.sum_cons] at ih ⊢
    omega

theorem encodeElements_aligned (l : List T) : 4 ∣ (fmt.encodeElements l).length := by
  induction l with
  | nil => exact Nat.dvd_zero 4
  | cons v l ih =>
    rw [encodeElements, List.flatMap_cons, List.length_append]
    exact Nat.dvd_add (fmt.aligned v) ih

/-- Elements of one size. -/
theorem encodeElements_fixed {n : Nat} (h : t.fixedSize = some n) (l : List T) :
    (fmt.encodeElements l).length = l.length * n := by
  induction l with
  | nil => simp [encodeElements]
  | cons v l ih =>
    have hv := fmt.fixed n h v
    rw [encodeElements, List.flatMap_cons, List.length_append, hv, List.length_cons, Nat.succ_mul]
    unfold encodeElements at ih
    omega

/-- Elements of a least size. -/
theorem le_encodeElements (h : ∀ v, 1 ≤ (fmt.encode v).length) (l : List T) :
    l.length ≤ (fmt.encodeElements l).length := by
  induction l with
  | nil => exact Nat.zero_le _
  | cons v l ih =>
    have hv := h v
    simp only [encodeElements, List.flatMap_cons, List.length_append, List.length_cons] at ih ⊢
    omega

/-- New elements are read one after the other. -/
theorem reads_elements (host : ByteOrder) {N : UInt32} {l : List T} {i : Nat}
    (hfits : ∀ v ∈ l, fmt.Fits v) (hbound : i + l.length ≤ N.toNat)
    (hlen : (fmt.encodeElements l).length < 2 ^ 32) :
    Prog.Reads (loadElements t host N i l.length []) (fmt.encodeElements l) l := by
  induction l generalizing i with
  | nil => exact .nothing _
  | cons v l ih =>
    rw [encodeElements, List.flatMap_cons, List.length_append] at hlen
    rw [List.length_cons] at hbound ⊢
    have hl : (fmt.encodeElements l).length < 2 ^ 32 :=
      Nat.lt_of_le_of_lt (Nat.le_add_left _ _) hlen
    have hrest :=
      ih (i := i + 1) (fun v' hv' => hfits v' (List.mem_cons_of_mem _ hv')) (by omega) hl
    rw [loadElements, if_neg (by omega), encodeElements, List.flatMap_cons]
    apply Prog.Reads.append (fmt.reads host v (hfits v List.mem_cons_self) (by omega))
    apply Prog.Reads.andThen hrest
    exact .nothing _

/-- Whatever elements there are, as many are read as asked for. -/
theorem parses_elements (host : ByteOrder) (N : UInt32) (n i : Nat) (old : List T) :
    Get.Parses 0 (fun l bytes => l.length = n ∧ (∀ v ∈ l, fmt.Fits v) ∧
      bytes.length = (fmt.encodeElements l).length) (loadElements t host N i n old) := by
  induction n generalizing i old with
  | zero => exact .nothing ⟨rfl, by simp, rfl⟩
  | succ n ih =>
    rw [loadElements]
    apply Prog.Parses.ite
    · intro _
      exact .halt trivial
    · intro _
      apply (fmt.parses host _).bind
      intro v bytes hv
      apply (ih (i + 1) old.tail).map
      intro l bytes' hl
      obtain ⟨hlen, hall, hbytes'⟩ := hl
      refine ⟨by simp [hlen], fun v' hv' => ?_, ?_⟩
      · rcases List.mem_cons.mp hv' with rfl | hrest
        · exact hv.1
        · exact hall v' hrest
      · unfold encodeElements at hbytes' ⊢
        rw [List.length_append, List.flatMap_cons, List.length_append, hv.2, hbytes']

theorem xvector_serialSize (N : UInt32) (l : List T) :
    (Xdr.xvector t N).serialSize l =
      (be32 (UInt32.ofNat l.length) ++ fmt.encodeElements l).length := by
  rw [List.length_append, be32_length]
  unfold Xdr.xvector
  dsimp only
  cases h : t.fixedSize with
  | none => rw [fmt.encodeElements_length]
  | some n => rw [fmt.encodeElements_fixed h]

/-- The number of elements in a word, and one after the other. -/
def xvector (N : UInt32) : XdrFormat (Xdr.xvector t N) where
  encode l := be32 (UInt32.ofNat l.length) ++ fmt.encodeElements l
  Fits l := l.length ≤ N.toNat ∧ ∀ v ∈ l, fmt.Fits v
  aligned l := by
    rw [List.length_append, be32_length]
    exact Nat.dvd_add (Nat.dvd_refl 4) (fmt.encodeElements_aligned l)
  serialSize_eq := fmt.xvector_serialSize N
  fixed n h := by simp [Xdr.xvector] at h
  writes host l :=
    .append (Put.writes_uint32 host _) (Prog.Writes.forEach l fun v _ => fmt.writes host v)
  reads host l hfits hlen := by
    rw [List.length_append] at hlen
    have hN := N.toNat_lt
    have hsize : (UInt32.ofNat l.length).toNat = l.length :=
      UInt32.toNat_ofNat_of_lt' (show l.length < 2 ^ 32 by omega)
    apply Prog.Reads.append (Get.reads_uint32 host _)
    have hpass : ¬ N < UInt32.ofNat l.length := by
      rw [UInt32.lt_iff_toNat_lt, hsize]
      omega
    rw [if_neg hpass, hsize]
    exact fmt.reads_elements host hfits.2 (by omega) (by omega)
  parses host old := by
    apply (Get.parses_uint32 host).bind
    intro n bytes hn
    apply Prog.Parses.ite
    · intro _
      exact .halt trivial
    · intro hbound
      apply (fmt.parses_elements host N n.toNat 0 old).mono
      intro l bytes' hl
      obtain ⟨hlen, hall, hbytes'⟩ := hl
      rw [UInt32.lt_iff_toNat_lt] at hbound
      refine ⟨⟨by omega, hall⟩, ?_⟩
      simp [hn, hbytes']

end Container

/-! ## Structures -/

/-- Nothing. -/
def structEnd : XdrFormat Xdr.structEnd where
  encode _ := []
  Fits _ := True
  aligned _ := Nat.dvd_zero 4
  serialSize_eq _ := rfl
  fixed n h _ := by simpa [Xdr.structEnd] using h
  writes _ _ := .nothing
  reads _ v _ _ := .nothing v
  parses _ _ := .nothing ⟨trivial, rfl⟩

section Struct

variable {A B S : Type} {a : XdrTraits A} {b : XdrTraits B}

theorem field_serialSize (first : XdrFormat a) (rest : XdrFormat b) (v : A × B) :
    (Xdr.field a b).serialSize v = (first.encode v.1 ++ rest.encode v.2).length := by
  rw [List.length_append, ← first.serialSize_eq, ← rest.serialSize_eq]
  unfold Xdr.field
  dsimp only
  cases ha : a.fixedSize with
  | none => rfl
  | some m =>
    cases hb : b.fixedSize with
    | none => rfl
    | some n =>
      rw [first.serialSize_eq, rest.serialSize_eq, first.fixed m ha, rest.fixed n hb]

/-- A field, and the fields after it. -/
def field (first : XdrFormat a) (rest : XdrFormat b) : XdrFormat (Xdr.field a b) where
  encode v := first.encode v.1 ++ rest.encode v.2
  Fits v := first.Fits v.1 ∧ rest.Fits v.2
  aligned v := by
    rw [List.length_append]
    exact Nat.dvd_add (first.aligned _) (rest.aligned _)
  serialSize_eq := field_serialSize first rest
  fixed n h v := by
    cases ha : a.fixedSize with
    | none => simp [Xdr.field, ha] at h
    | some m =>
      cases hb : b.fixedSize with
      | none => simp [Xdr.field, ha, hb] at h
      | some k =>
        simp [Xdr.field, ha, hb] at h
        rw [List.length_append, first.fixed m ha, rest.fixed k hb, h]
  writes host v := .append (first.writes host v.1) (rest.writes host v.2)
  reads host v hfits hlen := by
    rw [List.length_append] at hlen
    apply Prog.Reads.append (first.reads host v.1 hfits.1 (by omega))
    apply Prog.Reads.andThen (rest.reads host v.2 hfits.2 (by omega))
    exact .nothing v
  parses host old := by
    apply (first.parses host old.1).bind
    intro x l hx
    apply (rest.parses host old.2).map
    intro y l' hy
    refine ⟨⟨hx.1, hy.1⟩, ?_⟩
    simp [hx.2, hy.2]

/-- The fields, with nothing around them. -/
def struct (e : S ≃ A) (fields : XdrFormat a) : XdrFormat (Xdr.struct e a) where
  encode v := fields.encode (e v)
  Fits v := fields.Fits (e v)
  aligned v := fields.aligned _
  serialSize_eq v := fields.serialSize_eq _
  fixed n h v := fields.fixed n h _
  writes host v := fields.writes host _
  reads host v hfits hlen := by
    have hread := fields.reads host (e v) hfits hlen
    rw [← e.apply_symm_apply a.fresh] at hread
    apply Prog.Reads.andThen hread
    rw [e.symm_apply_apply]
    exact .nothing v
  parses host old := by
    apply (fields.parses host (e old)).map
    intro x l hx
    rw [e.apply_symm_apply]
    exact hx

end Struct

/-! ## Unions -/

section Union

variable (u : XdrUnion)

variable {u} in
/-- A union is read with a discriminant that makes the field new. -/
theorem reads_made (fmt : ∀ arm, XdrFormat (u.traits arm)) (host : ByteOrder) {old obj : u.Obj}
    (hfits : (fmt obj.arm).Fits obj.field)
    (hlen : ((fmt obj.arm).encode obj.field).length < 2 ^ 32)
    (hmade : u.discriminant (u.readTag obj.disc) old =
      .ok ⟨obj.disc, obj.arm, obj.named, (u.traits obj.arm).fresh⟩) :
    Prog.Reads (u.unionTraits.load host old) (be32 obj.disc ++ (fmt obj.arm).encode obj.field)
      obj := by
  apply Prog.Reads.append (Get.reads_uint32 host obj.disc)
  rw [hmade]
  apply Prog.Reads.andThen ((fmt obj.arm).reads host obj.field hfits hlen)
  exact .nothing _

/-- A format of a union asks for one of each field, that a discriminant of the
    union is read as it is, and that 0 shares its field with no other number: a
    new object would keep the 0. -/
def union (fmt : ∀ arm, XdrFormat (u.traits arm))
    (hread : ∀ d arm, u.fieldNumber d = some arm → u.readTag d = d)
    (hzero : ∀ d, u.fieldNumber d = some u.zeroArm → d = 0) : XdrFormat u.unionTraits where
  encode obj := be32 obj.disc ++ (fmt obj.arm).encode obj.field
  Fits obj := (fmt obj.arm).Fits obj.field
  aligned obj := by
    rw [List.length_append, be32_length]
    exact Nat.dvd_add (by decide) ((fmt obj.arm).aligned _)
  serialSize_eq obj := by
    rw [List.length_append, be32_length, ← (fmt obj.arm).serialSize_eq, Nat.add_comm]
    rfl
  fixed n h := by simp [XdrUnion.unionTraits] at h
  writes host obj := .append (Put.writes_uint32 host _) ((fmt obj.arm).writes host obj.field)
  reads host obj hfits hlen := by
    obtain ⟨disc, arm, hnamed, f⟩ := obj
    rw [List.length_append] at hlen
    apply reads_made fmt host hfits (by omega)
    rw [hread disc arm hnamed]
    by_cases hsame : arm = u.zeroArm
    · subst hsame
      obtain rfl := hzero disc hnamed
      exact XdrUnion.discriminant_same hnamed
    · exact XdrUnion.discriminant_other hnamed hsame
  parses host old := by
    apply (Get.parses_uint32 host).bind
    intro which bytes hwhich
    cases hset : u.discriminant (u.readTag which) old with
    | error e =>
      rw [u.discriminant_error hset]
      exact .halt trivial
    | ok obj =>
      apply ((fmt obj.arm).parses host obj.field).map
      intro f bytes' hf
      exact ⟨hf.1, by simp [hwhich, hf.2]⟩

end Union

end XdrFormat

end Xdr

end SimpleChubby
