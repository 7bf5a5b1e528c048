import NodeAdmission.Wire.Counted
/-!
# Readers and the end of the input

A message may arrive cut short, or with something behind it. A reader that has succeeded succeeds
alike whatever follows; and where the end of what it read is missing, it makes do with what is there
or says that there is too little (`Reader.Incremental`). The two go together through sequencing:

```text
first part reads on, second part reads on   →   whatever follows, both read on
first part is cut                           →   it makes do, and then the second part is cut,
                                                or it says that there is too little
```

So it is enough to look at the two readers that look at the end of the input: that of a fixed number
of bytes, and that of a length, which compares with all that is unread.
-/

namespace NodeAdmission.Wire

/-- The failure is one of too little input: it ended within a field, or a length exceeds it. -/
inductive DecodeError.IsShort : DecodeError → Prop where
  | truncated (needed remaining : Nat) : IsShort (.truncated needed remaining)
  | lengthTooLarge (length : UInt64) : IsShort (.lengthTooLarge length)

namespace Reader

variable {α β : Type}

/-- Successes of the reader do not depend on what follows what it read, and without the end of that
it makes do with the rest of it or says that there is too little. -/
structure Incremental (r : Reader α) : Prop where
  /-- What is left unread is the end of the input. -/
  suffix : ∀ {unread rest : List UInt8} {a : α}, r unread = (.ok a, rest) → rest <:+ unread
  /-- More input stays unread. -/
  extend : ∀ {unread rest : List UInt8} {a : α}, r unread = (.ok a, rest) →
    ∀ more, r (unread ++ more) = (.ok a, rest ++ more)
  /-- Missing input was not looked at, or is missed. -/
  cut : ∀ {unread missing rest : List UInt8} {a : α}, r (unread ++ missing) = (.ok a, rest) →
    (∃ rest', r unread = (.ok a, rest') ∧ rest = rest' ++ missing) ∨
      ∃ e rest', r unread = (.error e, rest') ∧ e.IsShort

namespace Incremental

/-! ## Sequencing -/

theorem pure (a : α) : (Pure.pure a : Reader α).Incremental where
  suffix h := (pure_eq_ok_iff.mp h).2 ▸ List.suffix_rfl
  extend h more := by
    obtain ⟨rfl, rfl⟩ := pure_eq_ok_iff.mp h
    rfl
  cut h := by
    obtain ⟨rfl, rfl⟩ := pure_eq_ok_iff.mp h
    exact .inl ⟨_, rfl, rfl⟩

theorem fail (e : DecodeError) : (Reader.fail e : Reader α).Incremental where
  suffix h := by cases h
  extend h := by cases h
  cut h := by cases h

theorem bind {r : Reader α} {f : α → Reader β} (hr : r.Incremental)
    (hf : ∀ a, (f a).Incremental) : (r >>= f).Incremental where
  suffix h := by
    obtain ⟨a, mid, hread, hrest⟩ := bind_eq_ok_iff.mp h
    exact ((hf a).suffix hrest).trans (hr.suffix hread)
  extend h more := by
    obtain ⟨a, mid, hread, hrest⟩ := bind_eq_ok_iff.mp h
    exact bind_eq_ok_iff.mpr ⟨a, mid ++ more, hr.extend hread more, (hf a).extend hrest more⟩
  cut h := by
    obtain ⟨a, mid, hread, hrest⟩ := bind_eq_ok_iff.mp h
    obtain ⟨mid', hread', rfl⟩ | ⟨e, mid', hread', hshort⟩ := hr.cut hread
    · rw [bind_of_ok hread']
      exact (hf a).cut hrest
    · exact .inr ⟨e, mid', bind_of_error hread' f, hshort⟩

theorem map {r : Reader α} (hr : r.Incremental) (f : α → β) : (f <$> r).Incremental := by
  rw [map_eq_pure_bind]
  exact hr.bind fun a ↦ pure (f a)

/-! ## Fields of a fixed size -/

theorem octets (n : Nat) : (Reader.octets n).Incremental where
  suffix h := ⟨_, (octets_eq_ok_iff.mp h).symm⟩
  extend h more := by
    rw [octets_eq_ok_iff.mp h, List.append_assoc]
    exact octets_append _ _
  cut := by
    intro unread missing rest o h
    by_cases hlength : n ≤ unread.length
    · obtain ⟨rest', rfl⟩ : o.toList <+: unread :=
        List.prefix_of_prefix_length_le ⟨rest, (octets_eq_ok_iff.mp h).symm⟩ ⟨missing, rfl⟩
          (o.length_toList.symm ▸ hlength)
      rw [List.append_assoc, octets_append] at h
      cases h
      exact .inl ⟨rest', octets_append o rest', rfl⟩
    · exact .inr ⟨_, unread, octets_of_length_lt (Nat.lt_of_not_le hlength), .truncated _ _⟩

theorem number (width : Nat) : (Reader.number width).Incremental :=
  (octets width).bind fun _ ↦ pure _

theorem u8 : Reader.u8.Incremental := (number 1).map _

theorem u32 : Reader.u32.Incremental := (number 4).map _

theorem u64 : Reader.u64.Incremental := (number 8).map _

theorem i64 : Reader.i64.Incremental := u64.map _

/-! ## Fields with a length -/

theorem atLeast (least width : Nat) : (Reader.atLeast least width).Incremental := by
  refine (number width).bind fun n ↦ ?_
  split
  · exact fail _
  · exact pure _

theorem compactSize : Reader.compactSize.Incremental := by
  refine u8.bind fun tag ↦ ?_
  split
  · exact atLeast _ _
  split
  · exact atLeast _ _
  split
  · exact atLeast _ _
  · exact pure _

end Incremental

/-- A length is judged by what is unread behind it. -/
theorem length_of_compactSize {minItemSize : Nat} {unread rest : List UInt8} {n : UInt64}
    (h : compactSize unread = (.ok n, rest)) :
    length minItemSize unread =
      if maxLength < n.toNat ∨ rest.length < saturatingMul n.toNat (max minItemSize 1) then
        (.error (.lengthTooLarge n), rest)
      else (.ok n.toNat, rest) := by
  rw [length, bind_of_ok h, bind_of_ok (rfl : remaining rest = (.ok rest.length, rest))]
  split <;> rfl

theorem exists_compactSize_of_length {minItemSize k : Nat} {unread rest : List UInt8}
    (h : length minItemSize unread = (.ok k, rest)) :
    ∃ n, compactSize unread = (.ok n, rest) ∧ n.toNat = k ∧ n.toNat ≤ maxLength ∧
      saturatingMul n.toNat (max minItemSize 1) ≤ rest.length := by
  obtain ⟨n, mid, hread, -⟩ := bind_eq_ok_iff.mp h
  rw [length_of_compactSize hread] at h
  split at h
  · cases h
  · next hok =>
    cases h
    obtain ⟨hle, hfits⟩ := not_or.mp hok
    exact ⟨n, hread, rfl, Nat.le_of_not_lt hle, Nat.le_of_not_lt hfits⟩

namespace Incremental

theorem length (minItemSize : Nat) : (Reader.length minItemSize).Incremental where
  suffix h := by
    obtain ⟨n, hread, -⟩ := exists_compactSize_of_length h
    exact compactSize.suffix hread
  extend h more := by
    obtain ⟨n, hread, rfl, hle, hfits⟩ := exists_compactSize_of_length h
    rw [length_of_compactSize (compactSize.extend hread more), if_neg]
    rw [List.length_append]
    omega
  cut := by
    intro unread missing rest k h
    obtain ⟨n, hread, rfl, hle, hfits⟩ := exists_compactSize_of_length h
    obtain ⟨rest', hread', rfl⟩ | ⟨e, rest', hread', hshort⟩ := compactSize.cut hread
    · -- The length itself is there; what is missing may be needed to hold that many items.
      rw [length_of_compactSize hread']
      split
      · exact .inr ⟨_, _, rfl, .lengthTooLarge n⟩
      · exact .inl ⟨rest', rfl, rfl⟩
    · exact .inr ⟨e, rest', bind_of_error hread' _, hshort⟩

theorem varBytes : Reader.varBytes.Incremental :=
  (length 1).bind fun n ↦ (octets n).bind fun _ ↦ pure _

theorem varText : Reader.varText.Incremental := by
  refine varBytes.bind fun bytes ↦ ?_
  split
  · exact pure _
  · exact fail _

theorem items {item : Reader α} (hitem : item.Incremental) (count : Nat) (newest : List α) :
    (Reader.items item count newest).Incremental := by
  induction count generalizing newest with
  | zero => exact pure newest.reverse
  | succ count ih =>
    have hstep : Reader.items item (count + 1) newest =
        item >>= fun a ↦ Reader.items item count (a :: newest) := rfl
    rw [hstep]
    exact hitem.bind fun a ↦ ih (a :: newest)

theorem list {item : Reader α} (hitem : item.Incremental) (minItemSize : Nat) :
    (Reader.list item minItemSize).Incremental :=
  (length minItemSize).bind fun n ↦ items hitem n []

end Incremental

/-! ## Whole messages -/

theorem whole_of_error {r : Reader α} {message rest : List UInt8} {e : DecodeError}
    (h : r message = (.error e, rest)) : r.whole message = .error e := by
  rw [whole, bind_of_error h]

theorem whole_of_ok_of_ne_nil {r : Reader α} {message rest : List UInt8} {a : α}
    (h : r message = (.ok a, rest)) (hrest : rest ≠ []) :
    r.whole message = .error (.trailingBytes rest.length) := by
  obtain ⟨b, rest, rfl⟩ := List.exists_cons_of_ne_nil hrest
  rw [whole, bind_of_ok h]
  rfl

end Reader

end NodeAdmission.Wire
