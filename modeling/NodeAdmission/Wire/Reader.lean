import NodeAdmission.Bytes
/-!
# Reading wire bytes

A reader takes the bytes not yet read and gives an answer together with the bytes it leaves unread,
also when it fails: whoever goes on after a failure goes on from where the failing read stood. A
read of a fixed number of bytes either takes them all or takes none.

The statements `bind_of_ok` and `bind_of_error`, and the two on mapping, are all that later proofs
need to know about sequencing. Where only success or only failure matters, the equivalences that end
in `_eq_ok_iff` or `_eq_error_iff` say the same at once.
-/

namespace NodeAdmission.Wire

/-! ## Failures -/

/-- Why bytes are not an encoding. -/
inductive DecodeError where
  /-- The input ended before a field was complete. -/
  | truncated (needed remaining : Nat)
  /-- A compact size was written in a wider form than necessary. -/
  | nonMinimalCompactSize
  /-- A length exceeds what the input or the format allows. -/
  | lengthTooLarge (length : UInt64)
  /-- A text field is not UTF-8. -/
  | invalidUtf8
  /-- Bytes were left over after a complete message. -/
  | trailingBytes (count : Nat)
deriving DecidableEq

/-- The wording of a failure. -/
def DecodeError.message : DecodeError → String
  | truncated needed remaining =>
    s!"Truncated input: needed {needed} bytes, {remaining} remaining"
  | nonMinimalCompactSize => "Non-minimal compact size encoding"
  | lengthTooLarge length => s!"Length prefix too large: {length.toNat}"
  | invalidUtf8 => "Invalid UTF-8 in string field"
  | trailingBytes count => s!"{count} trailing bytes after message"

/-! ## Readers -/

/-- A reader of an `α`: from the unread bytes to the answer and the bytes left unread. -/
def Reader (α : Type) : Type := List UInt8 → Except DecodeError α × List UInt8

namespace Reader

variable {α β : Type}

/-- Answers without reading. -/
protected def pure (a : α) : Reader α := fun unread ↦ (.ok a, unread)

/-- Reads on with the answer of a first reader; its failure is the failure of the whole. -/
protected def bind (r : Reader α) (f : α → Reader β) : Reader β := fun unread ↦
  match r unread with
  | (.ok a, rest) => f a rest
  | (.error e, rest) => (.error e, rest)

instance : Monad Reader where
  pure := Reader.pure
  bind := Reader.bind

@[simp] theorem pure_apply (a : α) (unread : List UInt8) :
    (pure a : Reader α) unread = (.ok a, unread) := rfl

theorem bind_of_ok {r : Reader α} {unread rest : List UInt8} {a : α}
    (h : r unread = (.ok a, rest)) (f : α → Reader β) : (r >>= f) unread = f a rest := by
  change Reader.bind r f unread = _
  simp only [Reader.bind, h]

theorem bind_of_error {r : Reader α} {unread rest : List UInt8} {e : DecodeError}
    (h : r unread = (.error e, rest)) (f : α → Reader β) :
    (r >>= f) unread = (.error e, rest) := by
  change Reader.bind r f unread = _
  simp only [Reader.bind, h]

theorem map_of_ok {r : Reader α} {unread rest : List UInt8} {a : α}
    (h : r unread = (.ok a, rest)) (f : α → β) : (f <$> r) unread = (.ok (f a), rest) := by
  change Reader.bind r (Reader.pure ∘ f) unread = _
  simp only [Reader.bind, h, Reader.pure, Function.comp_apply]

theorem map_of_error {r : Reader α} {unread rest : List UInt8} {e : DecodeError}
    (h : r unread = (.error e, rest)) (f : α → β) : (f <$> r) unread = (.error e, rest) := by
  change Reader.bind r (Reader.pure ∘ f) unread = _
  simp only [Reader.bind, h]

theorem pure_eq_ok_iff {a b : α} {unread rest : List UInt8} :
    (pure a : Reader α) unread = (.ok b, rest) ↔ b = a ∧ unread = rest := by
  rw [pure_apply, Prod.mk.injEq, Except.ok.injEq, eq_comm]

theorem bind_eq_ok_iff {r : Reader α} {f : α → Reader β} {unread rest : List UInt8} {b : β} :
    (r >>= f) unread = (.ok b, rest) ↔
      ∃ a mid, r unread = (.ok a, mid) ∧ f a mid = (.ok b, rest) := by
  rcases h : r unread with ⟨_ | a, mid⟩
  · rw [bind_of_error h]
    simp
  · rw [bind_of_ok h]
    constructor
    · exact fun hf ↦ ⟨a, mid, rfl, hf⟩
    · rintro ⟨_, _, ⟨⟩, hf⟩
      exact hf

theorem map_eq_ok_iff {r : Reader α} {f : α → β} {unread rest : List UInt8} {b : β} :
    (f <$> r) unread = (.ok b, rest) ↔ ∃ a, r unread = (.ok a, rest) ∧ f a = b := by
  rcases h : r unread with ⟨_ | a, mid⟩
  · rw [map_of_error h]
    simp
  · rw [map_of_ok h]
    constructor
    · rintro ⟨⟩
      exact ⟨a, rfl, rfl⟩
    · rintro ⟨_, ⟨⟩, rfl⟩
      rfl

theorem bind_eq_error_iff {r : Reader α} {f : α → Reader β} {unread rest : List UInt8}
    {e : DecodeError} :
    (r >>= f) unread = (.error e, rest) ↔
      r unread = (.error e, rest) ∨
        ∃ a mid, r unread = (.ok a, mid) ∧ f a mid = (.error e, rest) := by
  rcases h : r unread with ⟨_ | a, mid⟩
  · rw [bind_of_error h]
    simp
  · rw [bind_of_ok h]
    constructor
    · exact fun hf ↦ .inr ⟨a, mid, rfl, hf⟩
    · rintro (⟨⟨⟩⟩ | ⟨_, _, ⟨⟩, hf⟩)
      exact hf

theorem map_eq_error_iff {r : Reader α} {f : α → β} {unread rest : List UInt8}
    {e : DecodeError} :
    (f <$> r) unread = (.error e, rest) ↔ r unread = (.error e, rest) := by
  rcases h : r unread with ⟨_ | a, mid⟩
  · rw [map_of_error h]
    simp
  · rw [map_of_ok h]
    simp

instance : LawfulMonad Reader := .mk' Reader
  (by
    intro α r
    funext unread
    rcases h : r unread with ⟨_ | a, rest⟩
    · exact map_of_error h id
    · exact map_of_ok h id)
  (fun _ _ ↦ rfl)
  (by
    intro α β γ r f g
    funext unread
    rcases h : r unread with ⟨_ | a, rest⟩
    · rw [bind_of_error (bind_of_error h f), bind_of_error h]
    · rw [bind_of_ok h]
      rcases hf : f a rest with ⟨_ | b, rest'⟩
      · rw [bind_of_error ((bind_of_ok h f).trans hf), bind_of_error hf]
      · rw [bind_of_ok ((bind_of_ok h f).trans hf), bind_of_ok hf])

/-- Fails without reading. -/
def fail (e : DecodeError) : Reader α := fun unread ↦ (.error e, unread)

/-- The number of unread bytes. -/
def remaining : Reader Nat := fun unread ↦ (.ok unread.length, unread)

/-- Fails if any byte is unread. -/
def finish : Reader Unit := fun unread ↦
  if unread.isEmpty then (.ok (), unread) else (.error (.trailingBytes unread.length), unread)

/-- Reads a whole message: nothing may be left over. -/
def whole (r : Reader α) (message : List UInt8) : Except DecodeError α :=
  (do let a ← r; finish; return a : Reader α) message |>.1

theorem whole_eq_ok_iff {r : Reader α} {message : List UInt8} {a : α} :
    r.whole message = .ok a ↔ r message = (.ok a, []) := by
  rcases h : r message with ⟨_ | b, rest⟩
  · rw [whole, bind_of_error h]
    simp
  · rw [whole, bind_of_ok h]
    cases rest with
    | nil =>
      have hend : (finish >>= fun _ ↦ (pure b : Reader α)) [] = (.ok b, []) := rfl
      rw [hend]
      simp
    | cons c rest =>
      have hmore : (finish >>= fun _ ↦ (pure b : Reader α)) (c :: rest) =
          (.error (.trailingBytes (rest.length + 1)), c :: rest) := rfl
      rw [hmore]
      simp

theorem whole_map (f : α → β) (r : Reader α) (message : List UInt8) :
    (f <$> r).whole message = f <$> r.whole message := by
  rcases h : r message with ⟨_ | a, rest⟩
  · rw [whole, whole, bind_of_error (map_of_error h f), bind_of_error h]
    rfl
  · rw [whole, whole, bind_of_ok (map_of_ok h f), bind_of_ok h]
    cases rest <;> rfl

/-! ## Fields of a fixed size -/

/-- Reads `n` bytes, or none if there are fewer. -/
def octets (n : Nat) : Reader (Octets n) := fun unread ↦
  if h : (unread.take n).length = n then (.ok ⟨unread.take n, h⟩, unread.drop n)
  else (.error (.truncated n unread.length), unread)

theorem octets_append {n : Nat} (o : Octets n) (rest : List UInt8) :
    octets n (o.toList ++ rest) = (.ok o, rest) := by
  have h : (o.toList ++ rest).take n = o.toList := by
    rw [List.take_append_of_le_length (Nat.le_of_eq o.length_toList.symm),
      List.take_of_length_le (Nat.le_of_eq o.length_toList)]
  have hd : (o.toList ++ rest).drop n = rest := by
    rw [List.drop_append, List.drop_eq_nil_of_le (Nat.le_of_eq o.length_toList),
      o.length_toList, Nat.sub_self, List.drop_zero, List.nil_append]
  simp [octets, h, hd, o.length_toList]

theorem octets_eq_ok_iff {n : Nat} {o : Octets n} {unread rest : List UInt8} :
    octets n unread = (.ok o, rest) ↔ unread = o.toList ++ rest := by
  constructor
  · intro h
    unfold octets at h
    split at h
    · obtain ⟨ho, hrest⟩ := Prod.mk.injEq .. ▸ h
      rw [← hrest, ← Except.ok.inj ho, List.take_append_drop]
    · simp at h
  · rintro rfl
    exact octets_append o rest

theorem octets_of_length_lt {n : Nat} {unread : List UInt8} (h : unread.length < n) :
    octets n unread = (.error (.truncated n unread.length), unread) := by
  refine dif_neg ?_
  rw [List.length_take]
  omega

theorem octets_of_le_length {n : Nat} {unread : List UInt8} (h : n ≤ unread.length) :
    octets n unread = (.ok ⟨unread.take n, List.length_take_of_le h⟩, unread.drop n) :=
  dif_pos (List.length_take_of_le h)

theorem octets_eq_error_iff {n : Nat} {unread rest : List UInt8} {e : DecodeError} :
    octets n unread = (.error e, rest) ↔
      unread.length < n ∧ e = .truncated n unread.length ∧ rest = unread := by
  obtain hlt | hle := Nat.lt_or_ge unread.length n
  · rw [octets_of_length_lt hlt]
    simp [hlt, eq_comm]
  · rw [octets_of_le_length hle]
    simp [Nat.not_lt.mpr hle]

/-- Reads a number of `width` bytes, least significant first. -/
def number (width : Nat) : Reader Nat := do
  let bytes ← octets width
  return ofLittleEndian bytes.toList

/-- Reads one byte. -/
def u8 : Reader UInt8 := UInt8.ofNat <$> number 1

/-- Reads a 16-bit number. -/
def u16 : Reader UInt16 := UInt16.ofNat <$> number 2

/-- Reads a 32-bit number. -/
def u32 : Reader UInt32 := UInt32.ofNat <$> number 4

/-- Reads a 64-bit number. -/
def u64 : Reader UInt64 := UInt64.ofNat <$> number 8

/-- Reads a signed 64-bit number. -/
def i64 : Reader Int64 := UInt64.toInt64 <$> u64

end Reader

/-! ## Writing fields of a fixed size -/

/-- A byte as it travels. -/
def u8 (n : UInt8) : List UInt8 := [n]

/-- A 32-bit number as it travels. -/
def u32 (n : UInt32) : List UInt8 := littleEndian 4 n.toNat

/-- A 64-bit number as it travels. -/
def u64 (n : UInt64) : List UInt8 := littleEndian 8 n.toNat

/-- A signed 64-bit number as it travels. -/
def i64 (n : Int64) : List UInt8 := u64 n.toUInt64

end NodeAdmission.Wire
