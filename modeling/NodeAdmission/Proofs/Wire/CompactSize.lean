import NodeAdmission.Proofs.Wire.Delimited
/-!
# Every beginning of a compact size

Whatever bytes come, reading a compact size from them ends in one of three ways:

```text
the form of a number, and more           that number; the rest is unread
a wide form of a number that is too low  not minimal
a marker without its whole field, or no byte at all  truncated
```

The three wide forms differ in their marker, the width of their field and the least number they are
for. So what happens behind a marker is said once, of `Reader.atLeast`.
-/

namespace NodeAdmission.Wire

/-- The bytes start with a wide form of a number for which a narrower form would do. -/
inductive Overlong : List UInt8 → Prop where
  | two {field rest : List UInt8} (hwidth : field.length = 2)
    (hvalue : ofLittleEndian field < 0xfd) : Overlong (0xfd :: (field ++ rest))
  | four {field rest : List UInt8} (hwidth : field.length = 4)
    (hvalue : ofLittleEndian field ≤ 0xffff) : Overlong (0xfe :: (field ++ rest))
  | eight {field rest : List UInt8} (hwidth : field.length = 8)
    (hvalue : ofLittleEndian field ≤ 0xffff_ffff) : Overlong (0xff :: (field ++ rest))

/-- The bytes end before the form of a number does: there is no byte, or a marker whose field is
incomplete. -/
inductive Incomplete : List UInt8 → Prop where
  | nil : Incomplete []
  | two {field : List UInt8} (hwidth : field.length < 2) : Incomplete (0xfd :: field)
  | four {field : List UInt8} (hwidth : field.length < 4) : Incomplete (0xfe :: field)
  | eight {field : List UInt8} (hwidth : field.length < 8) : Incomplete (0xff :: field)

namespace Reader

variable {width least : Nat} {unread field rest : List UInt8}

/-! ## Behind a marker -/

theorem number_append (h : field.length = width) (rest : List UInt8) :
    number width (field ++ rest) = (.ok (ofLittleEndian field), rest) :=
  bind_of_ok (octets_append ⟨field, h⟩ rest) _

theorem number_of_length_lt (h : unread.length < width) :
    number width unread = (.error (.truncated width unread.length), unread) :=
  bind_of_error (octets_of_length_lt h) _

theorem atLeast_append (h : field.length = width) (rest : List UInt8) :
    atLeast least width (field ++ rest) =
      if ofLittleEndian field < least then (.error .nonMinimalCompactSize, rest)
      else (.ok (UInt64.ofNat (ofLittleEndian field)), rest) := by
  rw [atLeast, bind_of_ok (number_append h rest)]
  split <;> rfl

theorem atLeast_of_length_lt (h : unread.length < width) :
    atLeast least width unread = (.error (.truncated width unread.length), unread) :=
  bind_of_error (number_of_length_lt h) _

theorem atLeast_total (least width : Nat) (unread : List UInt8) :
    (∃ n rest, atLeast least width unread = (.ok n, rest)) ∨
      (∃ field rest, unread = field ++ rest ∧ field.length = width ∧
        ofLittleEndian field < least) ∨
      unread.length < width := by
  obtain hshort | hlong := Nat.lt_or_ge unread.length width
  · exact .inr (.inr hshort)
  have hfield : (unread.take width).length = width := List.length_take_of_le hlong
  by_cases hleast : ofLittleEndian (unread.take width) < least
  · exact .inr (.inl ⟨_, _, (List.take_append_drop width unread).symm, hfield, hleast⟩)
  · have hread : atLeast least width (unread.take width ++ unread.drop width) = _ :=
      atLeast_append hfield _
    rw [List.take_append_drop, if_neg hleast] at hread
    exact .inl ⟨_, _, hread⟩

/-! ## From the first byte -/

theorem compactSize_cons (tag : UInt8) (unread : List UInt8) :
    compactSize (tag :: unread) =
      if tag = 0xfd then atLeast 0xfd 2 unread
      else if tag = 0xfe then atLeast 0x1_0000 4 unread
      else if tag = 0xff then atLeast 0x1_0000_0000 8 unread
      else (.ok tag.toUInt64, unread) := by
  have htag : u8 (tag :: unread) = (.ok tag, unread) := u8_eq_ok_iff.mpr rfl
  rw [compactSize, bind_of_ok htag]
  repeat' split
  all_goals rfl

theorem compactSize_of_overlong (h : Overlong unread) :
    (compactSize unread).1 = .error .nonMinimalCompactSize := by
  cases h with
  | two hwidth hvalue =>
    rw [compactSize_cons, if_pos rfl, atLeast_append hwidth, if_pos hvalue]
  | four hwidth hvalue =>
    rw [compactSize_cons, if_neg (by decide), if_pos rfl, atLeast_append hwidth,
      if_pos (Nat.lt_succ_of_le hvalue)]
  | eight hwidth hvalue =>
    rw [compactSize_cons, if_neg (by decide), if_neg (by decide), if_pos rfl,
      atLeast_append hwidth, if_pos (Nat.lt_succ_of_le hvalue)]

theorem compactSize_of_incomplete (h : Incomplete unread) :
    ∃ needed remaining, (compactSize unread).1 = .error (.truncated needed remaining) := by
  cases h with
  | nil => exact ⟨1, 0, rfl⟩
  | two hwidth =>
    rw [compactSize_cons, if_pos rfl, atLeast_of_length_lt hwidth]
    exact ⟨_, _, rfl⟩
  | four hwidth =>
    rw [compactSize_cons, if_neg (by decide), if_pos rfl, atLeast_of_length_lt hwidth]
    exact ⟨_, _, rfl⟩
  | eight hwidth =>
    rw [compactSize_cons, if_neg (by decide), if_neg (by decide), if_pos rfl,
      atLeast_of_length_lt hwidth]
    exact ⟨_, _, rfl⟩

theorem compactSize_total (unread : List UInt8) :
    (∃ n rest, compactSize unread = (.ok n, rest)) ∨ Overlong unread ∨ Incomplete unread := by
  rcases unread with _ | ⟨tag, unread⟩
  · exact .inr (.inr .nil)
  rw [compactSize_cons]
  split
  · next hfd =>
    obtain h | ⟨field, rest, rfl, hwidth, hvalue⟩ | hwidth := atLeast_total 0xfd 2 unread
    · exact .inl h
    · exact .inr (.inl (hfd ▸ .two hwidth hvalue))
    · exact .inr (.inr (hfd ▸ .two hwidth))
  split
  · next hfe =>
    obtain h | ⟨field, rest, rfl, hwidth, hvalue⟩ | hwidth := atLeast_total 0x1_0000 4 unread
    · exact .inl h
    · exact .inr (.inl (hfe ▸ .four hwidth (Nat.le_of_lt_succ hvalue)))
    · exact .inr (.inr (hfe ▸ .four hwidth))
  split
  · next hff =>
    obtain h | ⟨field, rest, rfl, hwidth, hvalue⟩ | hwidth :=
      atLeast_total 0x1_0000_0000 8 unread
    · exact .inl h
    · exact .inr (.inl (hff ▸ .eight hwidth (Nat.le_of_lt_succ hvalue)))
    · exact .inr (.inr (hff ▸ .eight hwidth))
  · exact .inl ⟨_, _, rfl⟩

/-! ## The three ways -/

theorem compactSize_eq_nonMinimal_iff :
    (compactSize unread).1 = .error .nonMinimalCompactSize ↔ Overlong unread := by
  refine ⟨fun h ↦ ?_, compactSize_of_overlong⟩
  obtain ⟨n, rest, hread⟩ | hover | hcut := compactSize_total unread
  · simp [hread] at h
  · exact hover
  · obtain ⟨needed, remaining, hread⟩ := compactSize_of_incomplete hcut
    simp [hread] at h

theorem compactSize_eq_truncated_iff :
    (∃ needed remaining, (compactSize unread).1 = .error (.truncated needed remaining)) ↔
      Incomplete unread := by
  refine ⟨?_, compactSize_of_incomplete⟩
  rintro ⟨needed, remaining, h⟩
  obtain ⟨n, rest, hread⟩ | hover | hcut := compactSize_total unread
  · simp [hread] at h
  · simp [compactSize_of_overlong hover] at h
  · exact hcut

/-- Nothing is incomplete but what has no other outcome. -/
theorem incomplete_iff :
    Incomplete unread ↔ (¬∃ n, Wire.compactSize n <+: unread) ∧ ¬Overlong unread := by
  constructor
  · intro h
    obtain ⟨needed, remaining, hread⟩ := compactSize_of_incomplete h
    constructor
    · rintro ⟨n, rest, rfl⟩
      simp [compactSize_append] at hread
    · intro hover
      simp [compactSize_of_overlong hover] at hread
  · rintro ⟨hnone, hnot⟩
    obtain ⟨n, rest, hread⟩ | hover | hcut := compactSize_total unread
    · exact absurd ⟨n, rest, (compactSize_eq_ok_iff.mp hread).symm⟩ hnone
    · exact absurd hover hnot
    · exact hcut

end Reader

theorem compactSize_isPrefix_iff {m n : UInt64} : compactSize m <+: compactSize n ↔ m = n := by
  constructor
  · rintro ⟨rest, h⟩
    rw [← List.append_nil (compactSize n)] at h
    exact (compactSize_append_eq_append_iff.mp h).1
  · rintro rfl
    exact List.prefix_rfl

/-- **Compact sizes and numbers correspond, and every failure has its cause.** A number is read back
from its form whatever follows, and a number is read in some number of bytes only if these are its
form. Reading fails as not minimal exactly on a wide form whose number is too low for it, and as
truncated wherever else it fails, which is where the bytes end too early. No form is the beginning
of another. -/
theorem compactSize_exact :
    (∀ n rest, Reader.compactSize (compactSize n ++ rest) = (.ok n, rest)) ∧
    (∀ bytes n rest, Reader.compactSize bytes = (.ok n, rest) ↔
      bytes = compactSize n ++ rest) ∧
    (∀ bytes n k, (k ≤ bytes.length ∧ Reader.compactSize bytes = (.ok n, bytes.drop k)) ↔
      (k ≤ bytes.length ∧ bytes.take k = compactSize n)) ∧
    (∀ bytes, (Reader.compactSize bytes).1 = .error .nonMinimalCompactSize ↔ Overlong bytes) ∧
    (∀ bytes,
      (∃ needed left, (Reader.compactSize bytes).1 = .error (.truncated needed left)) ↔
        (¬∃ n, compactSize n <+: bytes) ∧ ¬Overlong bytes) ∧
    (∀ bytes, (¬∃ n, compactSize n <+: bytes) ∧ ¬Overlong bytes ↔ Incomplete bytes) ∧
    ∀ m n, compactSize m <+: compactSize n ↔ m = n := by
  refine ⟨Reader.compactSize_append, fun _ _ _ ↦ Reader.compactSize_eq_ok_iff, ?_, ?_, ?_, ?_, ?_⟩
  · intro bytes n k
    refine and_congr_right fun _ ↦ ?_
    have hsplit := List.take_append_drop k bytes
    rw [Reader.compactSize_eq_ok_iff]
    constructor
    · exact fun h ↦ List.append_cancel_right (hsplit.trans h)
    · exact fun h ↦ h ▸ hsplit.symm
  · exact fun bytes ↦ Reader.compactSize_eq_nonMinimal_iff
  · intro bytes
    rw [Reader.compactSize_eq_truncated_iff, Reader.incomplete_iff]
  · exact fun bytes ↦ Reader.incomplete_iff.symm
  · exact fun m n ↦ compactSize_isPrefix_iff

end NodeAdmission.Wire
