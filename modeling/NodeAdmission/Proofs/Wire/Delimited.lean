import NodeAdmission.Proofs.Wire.Exact
/-!
# Forms tell where they end

A record is written as the forms of its fields with nothing between them. Such bytes can be taken
apart in one way only, because every form tells where it ends:

```text
form a ++ s = form b ++ t  ↔  a = b ∧ s = t
```

For a field of a fixed size and for a compact size this follows from reading back. For a counted
field it holds up to the greatest count, which is far more than readers accept, so here the count is
compared first and then what was counted.
-/

namespace NodeAdmission.Wire

variable {α : Type} {s t : List UInt8}

/-! ## Fields that are read back -/

/-- A form that is read back tells where it ends. -/
theorem append_eq_append_iff_of_reader {r : Reader α} {form : α → List UInt8}
    (hread : ∀ {unread rest : List UInt8} {a : α},
      r unread = (.ok a, rest) ↔ unread = form a ++ rest) {a b : α} :
    form a ++ s = form b ++ t ↔ a = b ∧ s = t := by
  constructor
  · intro h
    have ha : r (form a ++ s) = (.ok a, s) := hread.mpr rfl
    have hb : r (form a ++ s) = (.ok b, t) := hread.mpr h
    rw [ha, Prod.mk.injEq, Except.ok.injEq] at hb
    exact hb
  · rintro ⟨rfl, rfl⟩
    rfl

theorem octets_append_eq_append_iff {n : Nat} {a b : Octets n} :
    a.toList ++ s = b.toList ++ t ↔ a = b ∧ s = t :=
  append_eq_append_iff_of_reader Reader.octets_eq_ok_iff

theorem u8_append_eq_append_iff {a b : UInt8} : u8 a ++ s = u8 b ++ t ↔ a = b ∧ s = t :=
  append_eq_append_iff_of_reader Reader.u8_eq_ok_iff

theorem i64_append_eq_append_iff {a b : Int64} : i64 a ++ s = i64 b ++ t ↔ a = b ∧ s = t := by
  -- What is written and read back are the bits.
  have hinj : a.toUInt64 = b.toUInt64 ↔ a = b := by
    refine ⟨fun h ↦ ?_, congrArg Int64.toUInt64⟩
    rw [← Int64.toInt64_toUInt64 a, h, Int64.toInt64_toUInt64]
  rw [i64, i64, append_eq_append_iff_of_reader Reader.u64_eq_ok_iff, hinj]

theorem compactSize_append_eq_append_iff {a b : UInt64} :
    compactSize a ++ s = compactSize b ++ t ↔ a = b ∧ s = t :=
  append_eq_append_iff_of_reader Reader.compactSize_eq_ok_iff

/-! ## Counted fields -/

/-- Two counts below `2 ^ 64` are written alike only if they are equal. -/
theorem count_append_eq_append_iff {m n : Nat} (hm : m < UInt64.size) (hn : n < UInt64.size) :
    compactSize (UInt64.ofNat m) ++ s = compactSize (UInt64.ofNat n) ++ t ↔ m = n ∧ s = t := by
  rw [compactSize_append_eq_append_iff, ← UInt64.toNat_inj, UInt64.toNat_ofNat_of_lt' hm,
    UInt64.toNat_ofNat_of_lt' hn]

theorem varBytes_append_eq_append_iff {a b : List UInt8} (ha : a.length < UInt64.size)
    (hb : b.length < UInt64.size) : varBytes a ++ s = varBytes b ++ t ↔ a = b ∧ s = t := by
  rw [varBytes, varBytes, List.append_assoc, List.append_assoc, count_append_eq_append_iff ha hb]
  constructor
  · rintro ⟨hlength, h⟩
    exact List.append_inj h hlength
  · rintro ⟨rfl, rfl⟩
    exact ⟨rfl, rfl⟩

theorem utf8_inj {a b : String} : utf8 a = utf8 b ↔ a = b := by
  constructor
  · intro h
    have ha := Reader.fromUTF8?_eq_some_iff.mpr (rfl : utf8 a = utf8 a)
    have hb := Reader.fromUTF8?_eq_some_iff.mpr h.symm
    exact Option.some.inj (ha.symm.trans hb)
  · rintro rfl
    rfl

theorem varText_append_eq_append_iff {a b : String} (ha : (utf8 a).length < UInt64.size)
    (hb : (utf8 b).length < UInt64.size) : varText a ++ s = varText b ++ t ↔ a = b ∧ s = t := by
  rw [varText, varText, varBytes_append_eq_append_iff ha hb, utf8_inj]

theorem flatMap_append_eq_append_iff {item : α → List UInt8}
    (hitem : ∀ {a b : α} {s t : List UInt8}, item a ++ s = item b ++ t ↔ a = b ∧ s = t)
    {as : List α} : ∀ {bs : List α}, as.length = bs.length →
      (as.flatMap item ++ s = bs.flatMap item ++ t ↔ as = bs ∧ s = t) := by
  -- By induction on the items: the first one ends where the others begin.
  induction as with
  | nil =>
    intro bs hlength
    obtain rfl := List.length_eq_zero_iff.mp hlength.symm
    simp
  | cons a as ih =>
    intro bs hlength
    obtain ⟨b, bs, rfl⟩ := List.exists_cons_of_length_eq_add_one hlength.symm
    have hrest : as.length = bs.length := Nat.succ.inj hlength
    rw [List.flatMap_cons, List.flatMap_cons, List.append_assoc, List.append_assoc, hitem, ih hrest,
      List.cons.injEq, and_assoc]

theorem list_append_eq_append_iff {item : α → List UInt8}
    (hitem : ∀ {a b : α} {s t : List UInt8}, item a ++ s = item b ++ t ↔ a = b ∧ s = t)
    {as bs : List α} (ha : as.length < UInt64.size) (hb : bs.length < UInt64.size) :
    list item as ++ s = list item bs ++ t ↔ as = bs ∧ s = t := by
  rw [list, list, List.append_assoc, List.append_assoc, count_append_eq_append_iff ha hb]
  constructor
  · rintro ⟨hlength, h⟩
    exact (flatMap_append_eq_append_iff hitem hlength).mp h
  · rintro ⟨rfl, rfl⟩
    exact ⟨rfl, rfl⟩

end NodeAdmission.Wire
