/-!
# Bytes of fixed and of any length

A byte string is a `List UInt8`. Hashes, keys and key identities have a fixed number of bytes, which
`Octets n` carries in its type, so that no reader or encoder has to check a length twice. Numbers
are written least or most significant byte first by `littleEndian` and `bigEndian`; reading such a
field back gives the number (`ofLittleEndian_littleEndian`).
-/

namespace NodeAdmission

/-! ## Byte strings of a fixed length -/

/-- A byte string of exactly `n` bytes. -/
@[ext]
structure Octets (n : Nat) where
  /-- The bytes, in wire order. -/
  toList : List UInt8
  /-- There are `n` of them. -/
  length_toList : toList.length = n
deriving DecidableEq

namespace Octets

variable {n : Nat}

/-- The byte string as an `Octets n`, if it has `n` bytes. -/
def ofList? (n : Nat) (bytes : List UInt8) : Option (Octets n) :=
  if h : bytes.length = n then some ⟨bytes, h⟩ else none

theorem ofList?_eq_some_iff {bytes : List UInt8} {o : Octets n} :
    ofList? n bytes = some o ↔ o.toList = bytes := by
  unfold ofList?
  split
  · rw [Option.some.injEq]
    exact ⟨fun h ↦ h ▸ rfl, fun h ↦ Octets.ext h.symm⟩
  · next hne =>
    exact ⟨fun h ↦ (by simp at h), fun h ↦ absurd (h ▸ o.length_toList) hne⟩

/-- `n` copies of one byte. -/
def replicate (n : Nat) (b : UInt8) : Octets n :=
  ⟨List.replicate n b, List.length_replicate⟩

/-- `n` zero bytes. -/
def zero (n : Nat) : Octets n := replicate n 0

/-- The byte at a position below the length. -/
def get (o : Octets n) (i : Fin n) : UInt8 :=
  o.toList.get ⟨i.1, o.length_toList.symm ▸ i.2⟩

/-- Byte strings are ordered as their bytes are, the first difference deciding. -/
instance : Ord (Octets n) := ⟨fun a b ↦ compare a.toList b.toList⟩

end Octets

/-! ## Numbers as bytes -/

/-- How many numbers `width` bytes can tell apart. -/
def span : Nat → Nat
  | 0 => 1
  | width + 1 => 256 * span width

/-- The `width` low bytes of a number, least significant first. -/
def littleEndian : Nat → Nat → List UInt8
  | 0, _ => []
  | width + 1, value => UInt8.ofNat value :: littleEndian width (value / 256)

/-- The number whose bytes are given, least significant first. -/
def ofLittleEndian : List UInt8 → Nat
  | [] => 0
  | b :: bs => b.toNat + 256 * ofLittleEndian bs

@[simp] theorem length_littleEndian (width value : Nat) :
    (littleEndian width value).length = width := by
  induction width generalizing value with
  | zero => rfl
  | succ width ih => simp [littleEndian, ih]

theorem ofLittleEndian_littleEndian (width value : Nat) :
    ofLittleEndian (littleEndian width value) = value % span width := by
  induction width generalizing value with
  | zero => simp [littleEndian, ofLittleEndian, span, Nat.mod_one]
  | succ width ih =>
    have h : (UInt8.ofNat value).toNat = value % 256 := UInt8.toNat_ofNat'
    rw [littleEndian, ofLittleEndian, ih, h, span, Nat.mod_mul]

theorem littleEndian_ofLittleEndian (bytes : List UInt8) :
    littleEndian bytes.length (ofLittleEndian bytes) = bytes := by
  induction bytes with
  | nil => rfl
  | cons b bs ih =>
    have hb : b.toNat < 256 := b.toNat_lt
    have hlow : UInt8.ofNat (b.toNat + 256 * ofLittleEndian bs) = b := by
      rw [← UInt8.toNat_inj, UInt8.toNat_ofNat']
      omega
    have hrest : (b.toNat + 256 * ofLittleEndian bs) / 256 = ofLittleEndian bs := by omega
    rw [List.length_cons, ofLittleEndian, littleEndian, hlow, hrest, ih]

theorem ofLittleEndian_lt (bytes : List UInt8) : ofLittleEndian bytes < span bytes.length := by
  induction bytes with
  | nil => simp [ofLittleEndian, span]
  | cons b bs ih =>
    have hb : b.toNat < 256 := b.toNat_lt
    rw [ofLittleEndian, List.length_cons, span]
    omega

/-- The `width` low bytes of a number, most significant first. -/
def bigEndian (width value : Nat) : List UInt8 := (littleEndian width value).reverse

/-- The number whose bytes are given, most significant first. -/
def ofBigEndian (bytes : List UInt8) : Nat := ofLittleEndian bytes.reverse

@[simp] theorem length_bigEndian (width value : Nat) :
    (bigEndian width value).length = width := by
  simp [bigEndian]

theorem ofBigEndian_bigEndian (width value : Nat) :
    ofBigEndian (bigEndian width value) = value % span width := by
  rw [ofBigEndian, bigEndian, List.reverse_reverse, ofLittleEndian_littleEndian]

theorem ofBigEndian_bigEndian_of_lt {width value : Nat} (h : value < span width) :
    ofBigEndian (bigEndian width value) = value := by
  rw [ofBigEndian_bigEndian, Nat.mod_eq_of_lt h]

theorem bigEndian_ofBigEndian {width : Nat} {bytes : List UInt8} (h : bytes.length = width) :
    bigEndian width (ofBigEndian bytes) = bytes := by
  rw [bigEndian, ofBigEndian, ← h, ← List.length_reverse, littleEndian_ofLittleEndian,
    List.reverse_reverse]

/-- A number as a fixed-length byte string, most significant byte first. -/
def Octets.ofNat (n value : Nat) : Octets n := ⟨bigEndian n value, length_bigEndian n value⟩

/-- The number whose bytes these are, most significant first. -/
def Octets.toNat {n : Nat} (o : Octets n) : Nat := ofBigEndian o.toList

/-! ## Named lengths -/

/-- A 32-byte hash. -/
abbrev Hash := Octets 32

/-- A 20-byte key or script identity. -/
abbrev KeyId := Octets 20

end NodeAdmission
