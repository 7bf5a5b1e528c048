import NodeAdmission.Wire.Counted
/-!
# Readers read exactly what is written

Every field of the wire format has one form: a reader succeeds with a value, leaving `rest`, exactly
if the unread bytes are the form of that value followed by `rest`. One equivalence says both that
reading undoes writing and that nothing else is read.

```text
reader unread = (.ok a, rest)  ↔  unread = encode a ++ rest
```

A field with a length adds that the length is within what readers accept. The equivalences compose
by `Reader.bind_eq_ok_iff`, so that a record's reader is characterised by rewriting with those of
its fields.

The early refusal of lengths that the unread bytes cannot hold never refuses a form: `n` items of at
least `k` bytes each have at least `n * k` bytes.
-/

namespace NodeAdmission.Wire

/-- A count is one byte, or a tag and a number of two, four or eight bytes. -/
theorem length_compactSize (n : UInt64) : (compactSize n).length ∈ [1, 3, 5, 9] := by
  rw [compactSize]
  split
  · simp
  split
  · simp
  split <;> simp

theorem length_compactSize_pos (n : UInt64) : 1 ≤ (compactSize n).length := by
  have hpos : ∀ k ∈ [1, 3, 5, 9], 1 ≤ k := by decide
  exact hpos _ (length_compactSize n)

theorem length_compactSize_le (n : UInt64) : (compactSize n).length ≤ 9 := by
  have hle : ∀ k ∈ [1, 3, 5, 9], k ≤ 9 := by decide
  exact hle _ (length_compactSize n)

namespace Reader

variable {α : Type} {unread rest : List UInt8}

/-! ## Numbers -/

theorem number_eq_ok_iff {width k : Nat} :
    number width unread = (.ok k, rest) ↔
      k < span width ∧ unread = littleEndian width k ++ rest := by
  rw [number, bind_eq_ok_iff]
  constructor
  · rintro ⟨bytes, mid, hread, hpure⟩
    obtain ⟨rfl, rfl⟩ := pure_eq_ok_iff.mp hpure
    have hback := littleEndian_ofLittleEndian bytes.toList
    have hlt := ofLittleEndian_lt bytes.toList
    rw [bytes.length_toList] at hback hlt
    rw [hback]
    exact ⟨hlt, octets_eq_ok_iff.mp hread⟩
  · rintro ⟨hlt, hunread⟩
    let bytes : Octets width := ⟨littleEndian width k, length_littleEndian width k⟩
    have hback : ofLittleEndian bytes.toList = k := by
      rw [ofLittleEndian_littleEndian, Nat.mod_eq_of_lt hlt]
    exact ⟨bytes, rest, octets_eq_ok_iff.mpr hunread, pure_eq_ok_iff.mpr ⟨hback.symm, rfl⟩⟩

/-- A type whose values are the numbers below `span width`. -/
theorem map_number_eq_ok_iff (width : Nat) {ofNat : Nat → α} (toNat : α → Nat)
    (hlt : ∀ a, toNat a < span width) (hto : ∀ k, k < span width → toNat (ofNat k) = k)
    (hof : ∀ a, ofNat (toNat a) = a) {a : α} :
    (ofNat <$> number width) unread = (.ok a, rest) ↔
      unread = littleEndian width (toNat a) ++ rest := by
  rw [map_eq_ok_iff]
  constructor
  · rintro ⟨k, hread, rfl⟩
    obtain ⟨hk, hunread⟩ := number_eq_ok_iff.mp hread
    rw [hto k hk]
    exact hunread
  · intro hunread
    exact ⟨toNat a, number_eq_ok_iff.mpr ⟨hlt a, hunread⟩, hof a⟩

theorem u8_eq_ok_iff {n : UInt8} : u8 unread = (.ok n, rest) ↔ unread = Wire.u8 n ++ rest := by
  have hform : littleEndian 1 n.toNat = Wire.u8 n := by simp [littleEndian, Wire.u8]
  rw [← hform]
  exact map_number_eq_ok_iff 1 UInt8.toNat (fun a ↦ a.toNat_lt)
    (fun _ hk ↦ UInt8.toNat_ofNat_of_lt' hk) (fun _ ↦ UInt8.ofNat_toNat)

theorem u32_eq_ok_iff {n : UInt32} :
    u32 unread = (.ok n, rest) ↔ unread = Wire.u32 n ++ rest :=
  map_number_eq_ok_iff 4 UInt32.toNat (fun a ↦ a.toNat_lt)
    (fun _ hk ↦ UInt32.toNat_ofNat_of_lt' hk) (fun _ ↦ UInt32.ofNat_toNat)

theorem u64_eq_ok_iff {n : UInt64} :
    u64 unread = (.ok n, rest) ↔ unread = Wire.u64 n ++ rest :=
  map_number_eq_ok_iff 8 UInt64.toNat (fun a ↦ a.toNat_lt)
    (fun _ hk ↦ UInt64.toNat_ofNat_of_lt' hk) (fun _ ↦ UInt64.ofNat_toNat)

/-! ## Compact sizes -/

theorem atLeast_eq_ok_iff {least width : Nat} (hwidth : span width ≤ UInt64.size) {n : UInt64} :
    atLeast least width unread = (.ok n, rest) ↔
      least ≤ n.toNat ∧ n.toNat < span width ∧
        unread = littleEndian width n.toNat ++ rest := by
  rw [atLeast, bind_eq_ok_iff]
  constructor
  · rintro ⟨k, mid, hread, hcheck⟩
    obtain ⟨hk, rfl⟩ := number_eq_ok_iff.mp hread
    by_cases hleast : k < least
    · rw [if_pos hleast] at hcheck
      simp [fail] at hcheck
    · rw [if_neg hleast] at hcheck
      obtain ⟨rfl, rfl⟩ := pure_eq_ok_iff.mp hcheck
      rw [UInt64.toNat_ofNat_of_lt' (Nat.lt_of_lt_of_le hk hwidth)]
      exact ⟨Nat.le_of_not_lt hleast, hk, rfl⟩
  · rintro ⟨hleast, hlt, hunread⟩
    refine ⟨n.toNat, rest, number_eq_ok_iff.mpr ⟨hlt, hunread⟩, ?_⟩
    rw [if_neg (Nat.not_lt.mpr hleast)]
    exact pure_eq_ok_iff.mpr ⟨UInt64.ofNat_toNat.symm, rfl⟩

/-- A byte that marks no wider form is a number that needs none. -/
theorem toNat_lt_of_ne_marker {tag : UInt8} (hfd : tag ≠ 0xfd) (hfe : tag ≠ 0xfe)
    (hff : tag ≠ 0xff) : tag.toNat < 0xfd := by
  have hlt := tag.toNat_lt
  rw [ne_eq, ← UInt8.toNat_inj] at hfd hfe hff
  simp only [UInt8.reduceToNat] at hfd hfe hff
  omega

theorem eq_compactSize_append {n : UInt64} (h : compactSize unread = (.ok n, rest)) :
    unread = Wire.compactSize n ++ rest := by
  obtain ⟨tag, mid, htag, hread⟩ := bind_eq_ok_iff.mp h
  rw [u8_eq_ok_iff.mp htag, Wire.compactSize]
  by_cases hfd : tag = 0xfd
  · rw [if_pos hfd] at hread
    obtain ⟨hle, hlt, rfl⟩ := (atLeast_eq_ok_iff (by decide)).mp hread
    simp only [span] at hlt
    rw [if_neg (by omega), if_pos (by omega), hfd]
    rfl
  by_cases hfe : tag = 0xfe
  · rw [if_neg hfd, if_pos hfe] at hread
    obtain ⟨hle, hlt, rfl⟩ := (atLeast_eq_ok_iff (by decide)).mp hread
    simp only [span] at hlt
    rw [if_neg (by omega), if_neg (by omega), if_pos (by omega), hfe]
    rfl
  by_cases hff : tag = 0xff
  · rw [if_neg hfd, if_neg hfe, if_pos hff] at hread
    obtain ⟨hle, -, rfl⟩ := (atLeast_eq_ok_iff (by decide)).mp hread
    rw [if_neg (by omega), if_neg (by omega), if_neg (by omega), hff]
    rfl
  · rw [if_neg hfd, if_neg hfe, if_neg hff] at hread
    obtain ⟨rfl, rfl⟩ := pure_eq_ok_iff.mp hread
    rw [UInt8.toNat_toUInt64, if_pos (toNat_lt_of_ne_marker hfd hfe hff), UInt8.ofNat_toNat]
    rfl

theorem compactSize_append (n : UInt64) (rest : List UInt8) :
    compactSize (Wire.compactSize n ++ rest) = (.ok n, rest) := by
  have hn := n.toNat_lt
  rw [compactSize, bind_eq_ok_iff, Wire.compactSize]
  split
  · next hlt =>
    have htag : (UInt8.ofNat n.toNat).toNat = n.toNat :=
      UInt8.toNat_ofNat_of_lt' (Nat.lt_trans hlt (by decide))
    have hne : ∀ marker : UInt8, 0xfd ≤ marker.toNat → UInt8.ofNat n.toNat ≠ marker := by
      rintro _ hmarker rfl
      omega
    refine ⟨_, rest, u8_eq_ok_iff.mpr rfl, ?_⟩
    rw [if_neg (hne _ (by decide)), if_neg (hne _ (by decide)), if_neg (hne _ (by decide)),
      pure_eq_ok_iff, ← UInt64.toNat_inj, UInt8.toNat_toUInt64, htag]
    exact ⟨rfl, rfl⟩
  split
  · exact ⟨0xfd, _, u8_eq_ok_iff.mpr rfl,
      (atLeast_eq_ok_iff (by decide)).mpr ⟨by omega, by simp only [span]; omega, rfl⟩⟩
  split
  · exact ⟨0xfe, _, u8_eq_ok_iff.mpr rfl,
      (atLeast_eq_ok_iff (by decide)).mpr ⟨by omega, by simp only [span]; omega, rfl⟩⟩
  · exact ⟨0xff, _, u8_eq_ok_iff.mpr rfl,
      (atLeast_eq_ok_iff (by decide)).mpr ⟨by omega, by simp only [span]; omega, rfl⟩⟩

theorem compactSize_eq_ok_iff {n : UInt64} :
    compactSize unread = (.ok n, rest) ↔ unread = Wire.compactSize n ++ rest :=
  ⟨eq_compactSize_append, fun h ↦ h ▸ compactSize_append n rest⟩

/-! ## Lengths -/

/-- A length that readers accept is one that the bytes behind it can hold. -/
theorem length_eq_ok_iff {minItemSize k : Nat}
    (hmin : maxLength * max minItemSize 1 < UInt64.size) :
    length minItemSize unread = (.ok k, rest) ↔
      (k ≤ maxLength ∧ k * max minItemSize 1 ≤ rest.length) ∧
        unread = Wire.compactSize (UInt64.ofNat k) ++ rest := by
  have hproduct : ∀ n ≤ maxLength,
      saturatingMul n (max minItemSize 1) = n * max minItemSize 1 := by
    intro n hn
    exact if_pos (Nat.lt_of_le_of_lt (Nat.mul_le_mul_right _ hn) hmin)
  rw [length, bind_eq_ok_iff]
  constructor
  · rintro ⟨n, mid, hread, hcheck⟩
    obtain ⟨_, _, hrem, hcheck⟩ := bind_eq_ok_iff.mp hcheck
    obtain ⟨rfl, rfl⟩ : mid.length = _ ∧ mid = _ := by simpa [remaining] using hrem
    split at hcheck
    · simp [fail] at hcheck
    · next hok =>
      obtain ⟨hle, hfits⟩ := not_or.mp hok
      rw [Nat.not_lt] at hle hfits
      obtain ⟨rfl, rfl⟩ := pure_eq_ok_iff.mp hcheck
      rw [hproduct _ hle] at hfits
      rw [UInt64.ofNat_toNat]
      exact ⟨⟨hle, hfits⟩, compactSize_eq_ok_iff.mp hread⟩
  · rintro ⟨⟨hle, hfits⟩, hunread⟩
    have hk : (UInt64.ofNat k).toNat = k :=
      UInt64.toNat_ofNat_of_lt' (Nat.lt_of_le_of_lt hle (by decide))
    refine ⟨_, rest, compactSize_eq_ok_iff.mpr hunread, ?_⟩
    refine bind_eq_ok_iff.mpr ⟨rest.length, rest, rfl, ?_⟩
    rw [hk, hproduct k hle, if_neg (not_or.mpr ⟨Nat.not_lt.mpr hle, Nat.not_lt.mpr hfits⟩)]
    rfl

/-! ## Byte strings and texts -/

theorem varBytes_eq_ok_iff {bytes : List UInt8} :
    varBytes unread = (.ok bytes, rest) ↔
      bytes.length ≤ maxLength ∧ unread = Wire.varBytes bytes ++ rest := by
  have hmin : maxLength * max 1 1 < UInt64.size := by decide
  rw [varBytes, bind_eq_ok_iff, Wire.varBytes]
  constructor
  · rintro ⟨k, mid, hlen, hread⟩
    obtain ⟨o, mid', ho, hpure⟩ := bind_eq_ok_iff.mp hread
    obtain ⟨⟨hle, -⟩, rfl⟩ := (length_eq_ok_iff hmin).mp hlen
    obtain ⟨rfl, rfl⟩ := pure_eq_ok_iff.mp hpure
    rw [octets_eq_ok_iff.mp ho, o.length_toList, List.append_assoc]
    exact ⟨hle, rfl⟩
  · rintro ⟨hle, rfl⟩
    rw [List.append_assoc]
    refine ⟨bytes.length, bytes ++ rest, (length_eq_ok_iff hmin).mpr ⟨⟨hle, ?_⟩, rfl⟩, ?_⟩
    · simp
    · exact bind_eq_ok_iff.mpr ⟨⟨bytes, rfl⟩, rest, octets_eq_ok_iff.mpr rfl, rfl⟩

theorem fromUTF8?_eq_some_iff {bytes : List UInt8} {s : String} :
    String.fromUTF8? ⟨bytes.toArray⟩ = some s ↔ utf8 s = bytes := by
  rw [String.fromUTF8?]
  constructor
  · intro h
    split at h
    · obtain rfl := Option.some.inj h
      rfl
    · simp at h
  · rintro rfl
    have hbytes : (⟨(utf8 s).toArray⟩ : ByteArray) = s.toByteArray := rfl
    rw [dif_pos (hbytes ▸ s.isValidUTF8)]
    rfl

theorem varText_eq_ok_iff {s : String} :
    varText unread = (.ok s, rest) ↔
      (utf8 s).length ≤ maxLength ∧ unread = Wire.varText s ++ rest := by
  rw [varText, bind_eq_ok_iff, Wire.varText]
  constructor
  · rintro ⟨bytes, mid, hread, hcheck⟩
    cases hs : String.fromUTF8? ⟨bytes.toArray⟩ with
    | none =>
      rw [hs] at hcheck
      simp [fail] at hcheck
    | some s' =>
      rw [hs] at hcheck
      obtain ⟨rfl, rfl⟩ := pure_eq_ok_iff.mp hcheck
      rw [fromUTF8?_eq_some_iff.mp hs]
      exact varBytes_eq_ok_iff.mp hread
  · intro h
    refine ⟨utf8 s, rest, varBytes_eq_ok_iff.mpr h, ?_⟩
    rw [fromUTF8?_eq_some_iff.mpr rfl]
    rfl

/-! ## Lists -/

/-- The reader succeeds exactly with the items that are `Valid`, in front of their forms. -/
def ReadsExactly (item : Reader α) (Valid : α → Prop) (encode : α → List UInt8) : Prop :=
  ∀ {unread rest : List UInt8} {a : α},
    item unread = (.ok a, rest) ↔ Valid a ∧ unread = encode a ++ rest

variable {item : Reader α} {Valid : α → Prop} {encode : α → List UInt8}

theorem items_eq_ok_iff (hitem : ReadsExactly item Valid encode) {count : Nat}
    {newest as : List α} :
    items item count newest unread = (.ok as, rest) ↔
      ∃ read, as = newest.reverse ++ read ∧ read.length = count ∧ (∀ a ∈ read, Valid a) ∧
        unread = read.flatMap encode ++ rest := by
  induction count generalizing unread newest with
  | zero =>
    simp only [items, List.length_eq_zero_iff, Prod.mk.injEq, Except.ok.injEq]
    constructor
    · rintro ⟨rfl, rfl⟩
      exact ⟨[], by simp, rfl, by simp, by simp⟩
    · rintro ⟨_, rfl, rfl, -, rfl⟩
      simp
  | succ count ih =>
    have hstep : items item (count + 1) newest unread = (.ok as, rest) ↔
        ∃ a mid, item unread = (.ok a, mid) ∧
          items item count (a :: newest) mid = (.ok as, rest) := bind_eq_ok_iff
    rw [hstep]
    constructor
    · rintro ⟨a, mid, hread, hitems⟩
      obtain ⟨hvalid, rfl⟩ := hitem.mp hread
      obtain ⟨read, rfl, rfl, hall, rfl⟩ := ih.mp hitems
      exact ⟨a :: read, by simp, rfl, List.forall_mem_cons.mpr ⟨hvalid, hall⟩, by simp⟩
    · rintro ⟨_ | ⟨a, read⟩, rfl, hcount, hall, rfl⟩
      · simp at hcount
      · obtain ⟨hvalid, hall⟩ := List.forall_mem_cons.mp hall
        refine ⟨a, read.flatMap encode ++ rest, hitem.mpr ⟨hvalid, by simp⟩, ih.mpr ?_⟩
        exact ⟨read, by simp, Nat.succ.inj hcount, hall, rfl⟩

/-- Items of a least size fill at least that much room each. -/
theorem length_mul_le_length_flatMap {size : Nat} {as : List α}
    (hsize : ∀ a ∈ as, size ≤ (encode a).length) :
    as.length * size ≤ (as.flatMap encode).length := by
  induction as with
  | nil => simp
  | cons a as ih =>
    obtain ⟨ha, has⟩ := List.forall_mem_cons.mp hsize
    rw [List.flatMap_cons, List.length_append, List.length_cons, Nat.succ_mul, Nat.add_comm]
    exact Nat.add_le_add ha (ih has)

theorem list_eq_ok_iff (hitem : ReadsExactly item Valid encode) {size : Nat} (hpos : 1 ≤ size)
    (hmax : maxLength * size < UInt64.size) (hsize : ∀ a, size ≤ (encode a).length)
    {as : List α} :
    list item size unread = (.ok as, rest) ↔
      (as.length ≤ maxLength ∧ ∀ a ∈ as, Valid a) ∧ unread = Wire.list encode as ++ rest := by
  have hunit : max size 1 = size := Nat.max_eq_left hpos
  have hmin : maxLength * max size 1 < UInt64.size := hunit.symm ▸ hmax
  rw [list, bind_eq_ok_iff, Wire.list]
  constructor
  · rintro ⟨k, mid, hlen, hitems⟩
    obtain ⟨⟨hle, -⟩, rfl⟩ := (length_eq_ok_iff hmin).mp hlen
    obtain ⟨read, has, rfl, hall, rfl⟩ := (items_eq_ok_iff hitem).mp hitems
    rw [List.reverse_nil, List.nil_append] at has
    rw [has, List.append_assoc]
    exact ⟨⟨hle, hall⟩, rfl⟩
  · rintro ⟨⟨hle, hall⟩, rfl⟩
    have hroom : as.length * size ≤ (as.flatMap encode ++ rest).length := by
      rw [List.length_append]
      exact Nat.le_add_right_of_le (length_mul_le_length_flatMap fun a _ ↦ hsize a)
    rw [List.append_assoc]
    refine ⟨as.length, _, (length_eq_ok_iff hmin).mpr ⟨⟨hle, hunit.symm ▸ hroom⟩, rfl⟩, ?_⟩
    exact (items_eq_ok_iff hitem).mpr ⟨as, rfl, rfl, hall, rfl⟩

end Reader

end NodeAdmission.Wire
