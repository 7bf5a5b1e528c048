import NodeAdmission.Proofs.Wire.Exact
import NodeAdmission.Proofs.Wire.Incremental
/-!
# Room for what a length announces

A length comes from whoever wrote the message and may be any number of 64 bits, and the least size
of an item is up to the caller. Room for that many items is set aside before the first one is read,
so a length must not be believed beyond what the unread bytes are worth. It is judged by a product
that stops at the greatest number of 64 bits. That no greater product passes for a smaller one rests
on the form of a length, which takes at least one byte: what is unread behind it is less than all
that the input has, and so less than where the product stops.

What was accepted is a budget of bytes, which items of a fixed size use up exactly. So none of them
finds too few (`exists_items_of_takes`).
-/

namespace NodeAdmission.Wire

namespace Reader

variable {α β : Type} {unread rest : List UInt8}

/-! ## Accepted lengths -/

theorem length_lt_of_compactSize {n : UInt64} (h : compactSize unread = (.ok n, rest)) :
    rest.length < unread.length := by
  have hpos := length_compactSize_pos n
  rw [compactSize_eq_ok_iff.mp h, List.length_append]
  omega

/-- On an input whose length is a number of 64 bits, as every input's is, the product that stops
decides as the exact product would. -/
theorem length_eq_ok_iff_compactSize (hsize : unread.length < UInt64.size) {minItemSize k : Nat} :
    length minItemSize unread = (.ok k, rest) ↔
      compactSize unread = (.ok (UInt64.ofNat k), rest) ∧ k ≤ maxLength ∧
        k * max minItemSize 1 ≤ rest.length := by
  constructor
  · intro h
    obtain ⟨n, hread, rfl, hle, hfits⟩ := exists_compactSize_of_length h
    have hrest := length_lt_of_compactSize hread
    rw [UInt64.ofNat_toNat]
    exact ⟨hread, hle, (saturatingMul_le_iff (by omega)).mp hfits⟩
  · rintro ⟨hread, hle, hfits⟩
    have hrest := length_lt_of_compactSize hread
    have hk : (UInt64.ofNat k).toNat = k :=
      UInt64.toNat_ofNat_of_lt' (Nat.lt_of_le_of_lt hle (by decide))
    have hproduct : saturatingMul k (max minItemSize 1) ≤ rest.length :=
      (saturatingMul_le_iff (by omega)).mpr hfits
    rw [length_of_compactSize hread, hk,
      if_neg (not_or.mpr ⟨Nat.not_lt.mpr hle, Nat.not_lt.mpr hproduct⟩)]

/-! ## Room for a list -/

/-- Reads a list and tells for how many items room is set aside, which is done once their number is
accepted and before the first of them is read. -/
def listInRoom (item : Reader α) (minItemSize : Nat) (unread : List UInt8) :
    Option Nat × Except DecodeError (List α) × List UInt8 :=
  match length minItemSize unread with
  | (.ok n, rest) => (some n, items item n [] rest)
  | (.error e, rest) => (none, .error e, rest)

theorem listInRoom_of_ok {minItemSize n : Nat} (h : length minItemSize unread = (.ok n, rest))
    (item : Reader α) :
    listInRoom item minItemSize unread = (some n, items item n [] rest) := by
  rw [listInRoom, h]

theorem listInRoom_of_error {minItemSize : Nat} {e : DecodeError}
    (h : length minItemSize unread = (.error e, rest)) (item : Reader α) :
    listInRoom item minItemSize unread = (none, .error e, rest) := by
  rw [listInRoom, h]

theorem listInRoom_snd (item : Reader α) (minItemSize : Nat) (unread : List UInt8) :
    (listInRoom item minItemSize unread).2 = list item minItemSize unread := by
  rcases h : length minItemSize unread with ⟨e | n, rest⟩
  · rw [listInRoom_of_error h, list, bind_of_error h]
  · rw [listInRoom_of_ok h, list, bind_of_ok h]

theorem listInRoom_fst_eq_some_iff {item : Reader α} {minItemSize room : Nat} :
    (listInRoom item minItemSize unread).1 = some room ↔
      ∃ rest, length minItemSize unread = (.ok room, rest) := by
  rcases h : length minItemSize unread with ⟨e | n, rest⟩
  · rw [listInRoom_of_error h]
    simp
  · rw [listInRoom_of_ok h]
    simp

theorem length_of_items {item : Reader α} {count : Nat} {newest as : List α}
    (h : items item count newest unread = (.ok as, rest)) :
    as.length = newest.length + count := by
  induction count generalizing unread newest with
  | zero =>
    cases h
    simp
  | succ count ih =>
    obtain ⟨a, mid, -, hitems⟩ : ∃ a mid, item unread = (.ok a, mid) ∧
        items item count (a :: newest) mid = (.ok as, rest) := bind_eq_ok_iff.mp h
    rw [ih hitems, List.length_cons]
    omega

/-- The room is filled exactly. -/
theorem length_of_list {item : Reader α} {minItemSize n : Nat} {mid : List UInt8} {as : List α}
    (hlength : length minItemSize unread = (.ok n, mid))
    (hlist : list item minItemSize unread = (.ok as, rest)) : as.length = n := by
  rw [list, bind_of_ok hlength] at hlist
  rw [length_of_items hlist, List.length_nil, Nat.zero_add]

/-! ## Readers of a fixed size -/

/-- The reader takes `size` bytes wherever there are so many. -/
def Takes (r : Reader α) (size : Nat) : Prop :=
  ∀ unread, size ≤ unread.length → ∃ a, r unread = (.ok a, unread.drop size)

namespace Takes

theorem pure (a : α) : (Pure.pure a : Reader α).Takes 0 := fun _ _ ↦ ⟨a, rfl⟩

theorem octets (n : Nat) : (Reader.octets n).Takes n := by
  intro unread h
  exact ⟨_, octets_of_le_length h⟩

theorem map {r : Reader α} {size : Nat} (hr : r.Takes size) (f : α → β) :
    (f <$> r).Takes size := by
  intro unread h
  obtain ⟨a, hread⟩ := hr unread h
  exact ⟨f a, map_of_ok hread f⟩

theorem bind {r : Reader α} {f : α → Reader β} {k l : Nat} (hr : r.Takes k)
    (hf : ∀ a, (f a).Takes l) : (r >>= f).Takes (k + l) := by
  intro unread h
  obtain ⟨a, hread⟩ := hr unread (by omega)
  obtain ⟨b, hread'⟩ := hf a (unread.drop k) (by rw [List.length_drop]; omega)
  rw [List.drop_drop] at hread'
  exact ⟨b, (bind_of_ok hread f).trans hread'⟩

theorem number (width : Nat) : (Reader.number width).Takes width :=
  (octets width).bind fun _ ↦ pure _

theorem u32 : Reader.u32.Takes 4 := (number 4).map _

end Takes

/-! ## What is behind an accepted length -/

/-- Where there is room for all items, none of them fails, and each starts where the one before it
ended. -/
theorem exists_items_of_takes {item : Reader α} {size count : Nat} (hitem : item.Takes size)
    (h : count * size ≤ unread.length) (newest : List α) :
    ∃ as, as.length = count ∧
      (∀ i (hi : i < as.length),
        item (unread.drop (i * size)) = (.ok as[i], unread.drop ((i + 1) * size))) ∧
      items item count newest unread =
        (.ok (newest.reverse ++ as), unread.drop (count * size)) := by
  -- Each item leaves the room that the others need.
  induction count generalizing unread newest with
  | zero => exact ⟨[], rfl, by simp, by simp [items]⟩
  | succ count ih =>
    rw [Nat.succ_mul] at h
    obtain ⟨a, hread⟩ := hitem unread (by omega)
    have hroom : count * size ≤ (unread.drop size).length := by
      rw [List.length_drop]
      omega
    obtain ⟨as, hcount, hitems, hrun⟩ := ih hroom (a :: newest)
    have hdrop : ∀ i, (unread.drop size).drop (i * size) = unread.drop ((i + 1) * size) := by
      intro i
      rw [List.drop_drop, Nat.succ_mul, Nat.add_comm]
    refine ⟨a :: as, by rw [List.length_cons, hcount], ?_, ?_⟩
    · rintro (_ | i) hi
      · simpa using hread
      · have hnext := hitems i (Nat.lt_of_succ_lt_succ hi)
        rw [hdrop, hdrop] at hnext
        exact hnext
    · have hstep : items item (count + 1) newest unread =
          items item count (a :: newest) (unread.drop size) := bind_of_ok hread _
      rw [hstep, hrun, hdrop]
      simp

theorem varBytes_of_length {n : Nat} (h : length 1 unread = (.ok n, rest)) :
    ∃ bytes : Octets n, octets n rest = (.ok bytes, rest.drop n) ∧
      varBytes unread = (.ok bytes.toList, rest.drop n) := by
  have hfits : n ≤ rest.length := by
    simpa using ((length_eq_ok_iff (by decide)).mp h).1.2
  obtain ⟨bytes, hread⟩ := Takes.octets n rest hfits
  exact ⟨bytes, hread, (bind_of_ok h _).trans (bind_of_ok hread _)⟩

theorem list_of_length {item : Reader α} {size n : Nat} (hitem : item.Takes size)
    (hpos : 1 ≤ size) (hmax : maxLength * size < UInt64.size)
    (h : length size unread = (.ok n, rest)) :
    ∃ as, as.length = n ∧
      (∀ i (hi : i < as.length),
        item (rest.drop (i * size)) = (.ok as[i], rest.drop ((i + 1) * size))) ∧
      list item size unread = (.ok as, rest.drop (n * size)) := by
  have hunit : max size 1 = size := Nat.max_eq_left hpos
  have hfits : n * max size 1 ≤ rest.length :=
    ((length_eq_ok_iff (hunit.symm ▸ hmax)).mp h).1.2
  obtain ⟨as, hcount, hitems, hrun⟩ := exists_items_of_takes hitem (hunit ▸ hfits) []
  exact ⟨as, hcount, hitems, (bind_of_ok h _).trans hrun⟩

end Reader

end NodeAdmission.Wire
