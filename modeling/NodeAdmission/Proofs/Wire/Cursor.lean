import NodeAdmission.Wire.Counted
/-!
# Reading with a position

A reader is a function of the unread bytes. It may as well keep the whole buffer and count the bytes
that it has read (`Cursor`). That way is open to mistakes that the other way excludes: a position
beyond the end, for which nothing is left to subtract, or a slice that is not within the buffer.
Here both are faults, and a reader is shown to be free of them.

What a reader does with its input is a tree of steps: it takes a fixed number of bytes, asks how
many are unread, or ends (`Steps`). Such a tree runs on the unread bytes (`Steps.reader`) and on a
cursor (`Steps.run?`). On a cursor within its buffer the second does not fault and does what the
first does with the unread bytes, and goes forward by as many bytes as were read (`Steps.run?_eq`).

Every reader of a field is the reader of such a tree (`Stepwise`).
-/

namespace NodeAdmission.Wire

/-! ## Cursors -/

/-- A buffer, and how many of its bytes have been read. -/
@[ext]
structure Cursor where
  /-- All bytes. -/
  buffer : List UInt8
  /-- The number of bytes in front of those not yet read. -/
  position : Nat

namespace Cursor

/-- A cursor that has read nothing. -/
def start (buffer : List UInt8) : Cursor := { buffer, position := 0 }

/-- The bytes not yet read. -/
def unread (c : Cursor) : List UInt8 := c.buffer.drop c.position

/-- The cursor, a number of bytes further. -/
def skip (c : Cursor) (count : Nat) : Cursor := { c with position := c.position + count }

/-- The cursor is not beyond the end. -/
def Within (c : Cursor) : Prop := c.position ≤ c.buffer.length

/-- The number of unread bytes. To subtract a position beyond the end is a fault. -/
def remaining? (c : Cursor) : Option Nat :=
  if c.position ≤ c.buffer.length then some (c.buffer.length - c.position) else none

/-- The bytes of the buffer between two positions. Positions in the wrong order or beyond the end
are a fault. -/
def slice? (c : Cursor) (start stop : Nat) : Option (List UInt8) :=
  if start ≤ stop ∧ stop ≤ c.buffer.length then some ((c.buffer.take stop).drop start) else none

/-- Takes `n` bytes, or none if there are fewer. It is a fault if the slice has another length. -/
def octets? (n : Nat) (c : Cursor) : Option (Except DecodeError (Octets n) × Cursor) := do
  let unread ← c.remaining?
  if unread < n then return (.error (.truncated n unread), c)
  let stop := c.position + n
  let bytes ← c.slice? c.position stop
  let o ← Octets.ofList? n bytes
  return (.ok o, { c with position := stop })

variable {c : Cursor}

theorem within_start (buffer : List UInt8) : (start buffer).Within := Nat.zero_le _

@[simp] theorem unread_start (buffer : List UInt8) : (start buffer).unread = buffer := rfl

@[simp] theorem skip_skip (c : Cursor) (k l : Nat) : (c.skip k).skip l = c.skip (k + l) := by
  simp [skip, Nat.add_assoc]

@[simp] theorem unread_skip (c : Cursor) (k : Nat) : (c.skip k).unread = c.unread.drop k := by
  simp [unread, skip, List.drop_drop]

theorem length_unread (c : Cursor) : c.unread.length = c.buffer.length - c.position :=
  List.length_drop

theorem Within.skip_iff (h : c.Within) {k : Nat} : (c.skip k).Within ↔ k ≤ c.unread.length := by
  simp only [Within, skip, length_unread] at h ⊢
  omega

theorem remaining?_eq (h : c.Within) : c.remaining? = some c.unread.length := by
  rw [length_unread]
  exact if_pos h

theorem slice?_eq {k : Nat} (h : (c.skip k).Within) :
    c.slice? c.position (c.position + k) = some (c.unread.take k) := by
  rw [slice?, if_pos ⟨Nat.le_add_right _ _, h⟩, List.drop_take, Nat.add_sub_cancel_left, unread]

theorem octets?_eq_of_lt {n : Nat} (h : c.Within) (hn : c.unread.length < n) :
    c.octets? n = some (.error (.truncated n c.unread.length), c) := by
  rw [octets?, remaining?_eq h]
  exact if_pos hn

theorem octets?_eq_of_le {n : Nat} (h : c.Within) (hn : n ≤ c.unread.length) :
    c.octets? n = some (.ok ⟨c.unread.take n, List.length_take_of_le hn⟩, c.skip n) := by
  have hslice := slice?_eq (h.skip_iff.mpr hn)
  have hoctets : Octets.ofList? n (c.unread.take n) = some ⟨_, List.length_take_of_le hn⟩ :=
    Octets.ofList?_eq_some_iff.mpr rfl
  rw [octets?, remaining?_eq h]
  simp [Nat.not_lt.mpr hn, hslice, hoctets, skip]

end Cursor

/-! ## Steps -/

/-- What a reader does: it answers, fails for another reason than missing bytes, takes a number of
bytes and goes on with them, or goes on with the number of unread bytes. -/
inductive Steps (α : Type) where
  | answer (a : α)
  | fail (e : DecodeError) (h : ∀ needed remaining, e ≠ .truncated needed remaining)
  | octets (n : Nat) (next : Octets n → Steps α)
  | remaining (next : Nat → Steps α)

namespace Steps

variable {α β : Type}

/-- The steps on a cursor. -/
def run? : Steps α → Cursor → Option (Except DecodeError α × Cursor)
  | answer a, c => some (.ok a, c)
  | fail e _, c => some (.error e, c)
  | octets n next, c =>
    c.octets? n >>= fun
      | (.ok o, c) => (next o).run? c
      | (.error e, c) => some (.error e, c)
  | remaining next, c => c.remaining? >>= fun k ↦ (next k).run? c

/-- The steps on the unread bytes. -/
def reader : Steps α → Reader α
  | answer a => pure a
  | fail e _ => .fail e
  | octets n next => .octets n >>= fun o ↦ (next o).reader
  | remaining next => .remaining >>= fun k ↦ (next k).reader

/-- The steps, and after an answer those for it. -/
protected def bind : Steps α → (α → Steps β) → Steps β
  | answer a, f => f a
  | fail e h, _ => fail e h
  | octets n next, f => octets n fun o ↦ (next o).bind f
  | remaining next, f => remaining fun k ↦ (next k).bind f

theorem reader_bind (p : Steps α) (f : α → Steps β) :
    (p.bind f).reader = p.reader >>= fun a ↦ (f a).reader := by
  induction p with
  | answer a => rfl
  | fail e h => rfl
  | octets n next ih => simp [Steps.bind, reader, ih]
  | remaining next ih => simp [Steps.bind, reader, ih]

/-- **A cursor goes forward only, stays within its buffer and does not fault.** What it answers and
what it leaves unread depend on the unread bytes alone. -/
theorem run?_eq (p : Steps α) {c : Cursor} (h : c.Within) :
    ∃ k ≤ c.unread.length, p.run? c = some ((p.reader c.unread).1, c.skip k) ∧
      (p.reader c.unread).2 = c.unread.drop k := by
  induction p generalizing c with
  | answer a => exact ⟨0, Nat.zero_le _, rfl, rfl⟩
  | fail e h => exact ⟨0, Nat.zero_le _, rfl, rfl⟩
  | octets n next ih =>
    obtain hlt | hle := Nat.lt_or_ge c.unread.length n
    · have hread := Reader.bind_of_error (Reader.octets_of_length_lt hlt) fun o ↦ (next o).reader
      refine ⟨0, Nat.zero_le _, ?_, ?_⟩
      · rw [run?, Cursor.octets?_eq_of_lt h hlt, reader, hread]
        rfl
      · rw [reader, hread]
        rfl
    · have hread := Reader.octets_of_le_length hle
      obtain ⟨k, hk, hrun, hrest⟩ :=
        ih ⟨c.unread.take n, List.length_take_of_le hle⟩ (h.skip_iff.mpr hle)
      rw [Cursor.unread_skip] at hk hrun hrest
      refine ⟨n + k, ?_, ?_, ?_⟩
      · rw [List.length_drop] at hk
        omega
      · rw [run?, Cursor.octets?_eq_of_le h hle, reader, Reader.bind_of_ok hread,
          ← Cursor.skip_skip]
        exact hrun
      · rw [reader, Reader.bind_of_ok hread, hrest, List.drop_drop]
  | remaining next ih =>
    rw [run?, Cursor.remaining?_eq h]
    exact ih c.unread.length h

/-- Only a step that takes bytes finds too few of them, and it takes none then. -/
theorem truncated_of_reader {p : Steps α} {unread rest : List UInt8} {needed left : Nat}
    (h : p.reader unread = (.error (.truncated needed left), rest)) :
    left < needed ∧ rest.length = left := by
  induction p generalizing unread with
  | answer a => simp [reader] at h
  | fail e he =>
    simp only [reader, Reader.fail, Prod.mk.injEq, Except.error.injEq] at h
    exact absurd h.1 (he needed left)
  | octets n next ih =>
    rw [reader, Reader.bind_eq_error_iff] at h
    obtain hread | ⟨o, mid, -, hnext⟩ := h
    · obtain ⟨hlt, herror, rfl⟩ := Reader.octets_eq_error_iff.mp hread
      cases herror
      exact ⟨hlt, rfl⟩
    · exact ih o hnext
  | remaining next ih => exact ih unread.length h

end Steps

/-! ## Readers made of steps -/

/-- The steps of a reader. -/
structure Stepwise {α : Type} (r : Reader α) where
  /-- What it does. -/
  steps : Steps α
  /-- That is what it does with the unread bytes. -/
  reader_steps : steps.reader = r

namespace Stepwise

variable {α β : Type} {r s : Reader α}

def pure (a : α) : Stepwise (Pure.pure a : Reader α) := ⟨.answer a, rfl⟩

def fail (e : DecodeError) (h : ∀ needed remaining, e ≠ .truncated needed remaining) :
    Stepwise (Reader.fail e : Reader α) := ⟨.fail e h, rfl⟩

def bind {f : α → Reader β} (hr : Stepwise r) (hf : ∀ a, Stepwise (f a)) :
    Stepwise (r >>= f) where
  steps := hr.steps.bind fun a ↦ (hf a).steps
  reader_steps := by
    simp only [Steps.reader_bind, hr.reader_steps, (hf _).reader_steps]

def map (hr : Stepwise r) (f : α → β) : Stepwise (f <$> r) where
  steps := (hr.bind fun a ↦ pure (f a)).steps
  reader_steps := by
    rw [(hr.bind fun a ↦ pure (f a)).reader_steps, map_eq_pure_bind]

def ite {p : Prop} [Decidable p] (hr : Stepwise r) (hs : Stepwise s) :
    Stepwise (if p then r else s) where
  steps := if p then hr.steps else hs.steps
  reader_steps := by
    split
    · exact hr.reader_steps
    · exact hs.reader_steps

/-! ### Fields -/

def remaining : Stepwise Reader.remaining := ⟨.remaining .answer, rfl⟩

def finish : Stepwise Reader.finish where
  steps := .remaining fun k ↦
    if k = 0 then .answer () else .fail (.trailingBytes k) (by simp)
  reader_steps := by
    funext unread
    cases unread <;> rfl

def octets (n : Nat) : Stepwise (Reader.octets n) where
  steps := .octets n .answer
  reader_steps := by simp [Steps.reader]

def number (width : Nat) : Stepwise (Reader.number width) := (octets width).bind fun _ ↦ pure _

def u8 : Stepwise Reader.u8 := (number 1).map _

def u16 : Stepwise Reader.u16 := (number 2).map _

def u32 : Stepwise Reader.u32 := (number 4).map _

def u64 : Stepwise Reader.u64 := (number 8).map _

def i64 : Stepwise Reader.i64 := u64.map _

def atLeast (least width : Nat) : Stepwise (Reader.atLeast least width) :=
  (number width).bind fun _ ↦ ite (fail _ (by simp)) (pure _)

def compactSize : Stepwise Reader.compactSize :=
  u8.bind fun _ ↦ ite (atLeast _ _) (ite (atLeast _ _) (ite (atLeast _ _) (pure _)))

def length (minItemSize : Nat) : Stepwise (Reader.length minItemSize) :=
  compactSize.bind fun _ ↦ remaining.bind fun _ ↦ ite (fail _ (by simp)) (pure _)

def varBytes : Stepwise Reader.varBytes := (length 1).bind fun n ↦ (octets n).bind fun _ ↦ pure _

def varText : Stepwise Reader.varText where
  steps := varBytes.steps.bind fun bytes ↦
    (String.fromUTF8? ⟨bytes.toArray⟩).elim (.fail .invalidUtf8 (by simp)) .answer
  reader_steps := by
    rw [Steps.reader_bind, varBytes.reader_steps, Reader.varText]
    refine bind_congr fun bytes ↦ ?_
    cases String.fromUTF8? ⟨bytes.toArray⟩ <;> rfl

def items {item : Reader α} (hitem : Stepwise item) :
    (count : Nat) → (newest : List α) → Stepwise (Reader.items item count newest)
  | 0, newest => pure newest.reverse
  | count + 1, newest =>
    have hstep : Reader.items item (count + 1) newest =
        item >>= fun a ↦ Reader.items item count (a :: newest) := rfl
    hstep ▸ hitem.bind fun a ↦ items hitem count (a :: newest)

def list {item : Reader α} (hitem : Stepwise item) (minItemSize : Nat) :
    Stepwise (Reader.list item minItemSize) :=
  (length minItemSize).bind fun n ↦ items hitem n []

end Stepwise

end NodeAdmission.Wire
