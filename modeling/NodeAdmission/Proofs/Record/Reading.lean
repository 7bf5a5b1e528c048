import NodeAdmission.Proofs.Wire.Cursor
import NodeAdmission.Record.Ping
/-!
# Any sequence of reads

A reader may be used in any way: its calls may come in any order and with any sizes, and it may be
called again after it has failed in the middle of a record. Every call is made of the steps of
`Wire.Steps`, so what holds of all trees of steps holds of each call, and along a sequence of calls
by induction (`reading_safe`).
-/

namespace NodeAdmission.Wire

variable {α : Type}

/-! ## Records made of steps -/

namespace Stepwise

def outPoint : Stepwise OutPoint.reader := (octets 32).bind fun _ ↦ u32.bind fun _ ↦ pure _

def anchor : Stepwise Anchor.reader := u32.bind fun _ ↦ (octets 32).bind fun _ ↦ pure _

def output : Stepwise Output.reader := u64.bind fun _ ↦ varBytes.bind fun _ ↦ pure _

def transaction : Stepwise Transaction.reader :=
  u32.bind fun _ ↦ (list outPoint _).bind fun _ ↦ (list output _).bind fun _ ↦ pure _

def registration : Stepwise Registration.reader :=
  (octets 33).bind fun _ ↦ u8.bind fun _ ↦ (octets 20).bind fun _ ↦ (list outPoint _).bind fun _ ↦
    anchor.bind fun _ ↦ varBytes.bind fun _ ↦ pure _

def record (clock : Time) : Stepwise (NodeRecord.reader clock) := registration.map _

def ping (clock : Time) : Stepwise (Ping.reader clock) :=
  (octets 33).bind fun _ ↦ anchor.bind fun _ ↦ varText.bind fun _ ↦ (record clock).bind fun _ ↦
    varBytes.bind fun _ ↦ pure _

end Stepwise

/-! ## Calls -/

/-- What is decoded as a whole or as the item of a list. -/
inductive Item : Type → Type 1 where
  | u8 : Item UInt8
  | u32 : Item UInt32
  | u64 : Item UInt64
  | i64 : Item Int64
  | octets (n : Nat) : Item (Octets n)
  | outPoint : Item OutPoint
  | output : Item Output
  | transaction : Item Transaction
  | record (clock : Time) : Item NodeRecord
  | ping (clock : Time) : Item Ping

/-- The reader of an item. -/
def Item.reader : Item α → Reader α
  | u8 => .u8
  | u32 => .u32
  | u64 => .u64
  | i64 => .i64
  | octets n => .octets n
  | outPoint => OutPoint.reader
  | output => Output.reader
  | transaction => Transaction.reader
  | record clock => NodeRecord.reader clock
  | ping clock => Ping.reader clock

def Item.stepwise : (item : Item α) → Stepwise item.reader
  | u8 => .u8
  | u32 => .u32
  | u64 => .u64
  | i64 => .i64
  | octets n => .octets n
  | outPoint => .outPoint
  | output => .output
  | transaction => .transaction
  | record clock => .record clock
  | ping clock => .ping clock

/-- A use of a reader, with the sizes that the caller chooses. To read a byte string or a number is
to decode it. -/
inductive Call : Type → Type 1 where
  | remaining : Call Nat
  | finish : Call Unit
  | u16 : Call UInt16
  | compactSize : Call UInt64
  | length (minItemSize : Nat) : Call Nat
  | varBytes : Call (List UInt8)
  | varText : Call String
  | list {β : Type} (item : Item β) (minItemSize : Nat) : Call (List β)
  | decode {β : Type} (item : Item β) : Call β

namespace Call

/-- The reader that a call uses. -/
def reader : Call α → Reader α
  | remaining => .remaining
  | finish => .finish
  | u16 => .u16
  | compactSize => .compactSize
  | length minItemSize => .length minItemSize
  | varBytes => .varBytes
  | varText => .varText
  | list item minItemSize => .list item.reader minItemSize
  | decode item => item.reader

/-- Every call is made of steps. -/
def stepwise : (call : Call α) → Stepwise call.reader
  | remaining => .remaining
  | finish => .finish
  | u16 => .u16
  | compactSize => .compactSize
  | length minItemSize => .length minItemSize
  | varBytes => .varBytes
  | varText => .varText
  | list item minItemSize => .list item.stepwise minItemSize
  | decode item => item.stepwise

/-- A call on a cursor. -/
def run? (call : Call α) (c : Cursor) : Option (Except DecodeError α × Cursor) :=
  call.stepwise.steps.run? c

/-- The call reads a byte string of a given length or a number. -/
inductive IsFixedSize : {α : Type} → Call α → Prop where
  | u16 : IsFixedSize .u16
  | u8 : IsFixedSize (.decode .u8)
  | u32 : IsFixedSize (.decode .u32)
  | u64 : IsFixedSize (.decode .u64)
  | i64 : IsFixedSize (.decode .i64)
  | octets (n : Nat) : IsFixedSize (.decode (.octets n))

theorem exists_run?_eq_of_reader {call : Call α} {c : Cursor} (h : c.Within)
    {answer : Except DecodeError α} {rest : List UInt8}
    (hread : call.reader c.unread = (answer, rest)) :
    ∃ k ≤ c.unread.length, call.run? c = some (answer, c.skip k) ∧ c.unread.drop k = rest := by
  obtain ⟨k, hk, hrun, hrest⟩ := call.stepwise.steps.run?_eq h
  rw [call.stepwise.reader_steps, hread] at hrun hrest
  exact ⟨k, hk, hrun, hrest.symm⟩

end Call

/-! ## Reads that take all or nothing -/

/-- A reader that fails has read nothing. -/
def Reader.AllOrNothing (r : Reader α) : Prop :=
  ∀ unread rest e, r unread = (.error e, rest) → rest = unread

namespace Reader.AllOrNothing

theorem octets (n : Nat) : (Reader.octets n).AllOrNothing := by
  intro unread rest e h
  exact (octets_eq_error_iff.mp h).2.2

theorem map {β : Type} {r : Reader α} (hr : r.AllOrNothing) (f : α → β) :
    (f <$> r).AllOrNothing := by
  intro unread rest e h
  exact hr _ _ _ (map_eq_error_iff.mp h)

theorem number (width : Nat) : (Reader.number width).AllOrNothing := by
  rw [Reader.number, bind_pure_comp]
  exact (octets width).map _

end Reader.AllOrNothing

theorem Call.IsFixedSize.allOrNothing {call : Call α} (h : call.IsFixedSize) :
    call.reader.AllOrNothing := by
  cases h with
  | u16 => exact (Reader.AllOrNothing.number 2).map _
  | u8 => exact (Reader.AllOrNothing.number 1).map _
  | u32 => exact (Reader.AllOrNothing.number 4).map _
  | u64 => exact (Reader.AllOrNothing.number 8).map _
  | i64 => exact ((Reader.AllOrNothing.number 8).map _).map _
  | octets n => exact .octets n

/-! ## Sequences of calls -/

/-- A call that has been made: where the cursor stood, what was answered, and where it stands. -/
structure Event where
  {Answer : Type}
  call : Call Answer
  before : Cursor
  answer : Except DecodeError Answer
  after : Cursor

/-- A sequence of calls on a cursor. Each starts where the one before it ended, in success or in
failure. -/
def Cursor.runAll? (c : Cursor) : List (Σ Answer : Type, Call Answer) → Option (List Event)
  | [] => some []
  | ⟨_, call⟩ :: calls =>
    match call.run? c with
    | some (answer, after) =>
      (after.runAll? calls).map fun events ↦ { call, before := c, answer, after } :: events
    | none => none

/-- What can be relied upon at a call, whatever was read or failed before. -/
structure Event.IsSafe (buffer : List UInt8) (e : Event) : Prop where
  /-- The buffer stays the same. -/
  buffer_eq : e.before.buffer = buffer ∧ e.after.buffer = buffer
  /-- The cursor does not move backwards. -/
  forward : e.before.position ≤ e.after.position
  /-- The cursor does not pass the end. -/
  within : e.after.position ≤ buffer.length
  /-- A read of a fixed size that fails leaves the cursor where it was. -/
  allOrNothing : e.call.IsFixedSize → ∀ err, e.answer = .error err → e.after = e.before
  /-- The call answers and moves as on a new cursor over the unread bytes. -/
  afresh : e.call.run? (.start e.before.unread) =
    some (e.answer, (Cursor.start e.before.unread).skip (e.after.position - e.before.position))
  /-- The answer and the bytes left unread are those of the reader. -/
  reader_eq : e.call.reader e.before.unread = (e.answer, e.after.unread)
  /-- Where bytes are missing, there are fewer than needed, and they stay unread. -/
  truncated : ∀ needed left, e.answer = .error (.truncated needed left) →
    left < needed ∧ e.after.unread.length = left

/-- A call within the buffer does not fault, is safe and stays within. -/
theorem Call.exists_run?_eq (call : Call α) {c : Cursor} (h : c.Within) :
    ∃ answer after, call.run? c = some (answer, after) ∧ after.Within ∧
      Event.IsSafe c.buffer { call, before := c, answer, after } := by
  rcases hread : call.reader c.unread with ⟨answer, rest⟩
  obtain ⟨k, hk, hrun, hrest⟩ := exists_run?_eq_of_reader h hread
  obtain ⟨l, hl, hrun', hrest'⟩ := exists_run?_eq_of_reader (Cursor.within_start c.unread) hread
  rw [Cursor.unread_start] at hl hrest'
  -- What is left unread tells how far a cursor went.
  have hlength : rest.length = c.unread.length - k := by rw [← hrest, List.length_drop]
  have hlength' : rest.length = c.unread.length - l := by rw [← hrest', List.length_drop]
  obtain rfl : l = k := by omega
  have hunread : (c.skip l).unread = rest := by rw [Cursor.unread_skip, hrest]
  have hwithin : (c.skip l).Within := h.skip_iff.mpr hk
  refine ⟨answer, c.skip l, hrun, hwithin, ?_⟩
  constructor
  case buffer_eq => exact ⟨rfl, rfl⟩
  case forward => exact Nat.le_add_right _ _
  case within => exact hwithin
  case allOrNothing =>
    intro hfixed err herr
    have hnone : rest = c.unread := hfixed.allOrNothing _ _ err (herr ▸ hread)
    rw [hnone] at hlength
    obtain rfl : l = 0 := by omega
    rfl
  case afresh => simpa [Cursor.skip] using hrun'
  case reader_eq => exact hread.trans (by rw [hunread])
  case truncated =>
    intro needed left herr
    have hfail : call.stepwise.steps.reader c.unread = (.error (.truncated needed left), rest) := by
      rw [call.stepwise.reader_steps, hread, ← herr]
    obtain ⟨hlt, hleft⟩ := Steps.truncated_of_reader hfail
    exact ⟨hlt, hunread.symm ▸ hleft⟩

/-- **Reading is safe in any use, also after failures.** Whatever the buffer and whatever calls are
made one after the other, with any sizes, nothing faults: no position is beyond the end where it is
subtracted, and every slice is within the buffer. At each call the cursor moves forward if at all
and not past the end, a read of a fixed size that fails does not move it, the call does what it
would do on a new cursor over the unread bytes, and a failure for missing bytes tells truly how many
are left. -/
theorem reading_safe (buffer : List UInt8) (calls : List (Σ Answer : Type, Call Answer)) :
    ∃ events, (Cursor.start buffer).runAll? calls = some events ∧
      events.map (fun e ↦ (⟨_, e.call⟩ : Σ Answer : Type, Call Answer)) = calls ∧
      ∀ e ∈ events, e.IsSafe buffer := by
  suffices hfrom : ∀ c : Cursor, c.Within → ∃ events, c.runAll? calls = some events ∧
      events.map (fun e ↦ (⟨_, e.call⟩ : Σ Answer : Type, Call Answer)) = calls ∧
      ∀ e ∈ events, e.IsSafe c.buffer from hfrom _ (Cursor.within_start buffer)
  induction calls with
  | nil => exact fun c _ ↦ ⟨[], rfl, rfl, by simp⟩
  | cons call calls ih =>
    intro c hc
    obtain ⟨Answer, call⟩ := call
    obtain ⟨answer, after, hrun, hafter, hsafe⟩ := call.exists_run?_eq hc
    obtain ⟨events, hevents, hcalls, hall⟩ := ih after hafter
    have hbuffer : after.buffer = c.buffer := hsafe.buffer_eq.2
    refine ⟨{ call, before := c, answer, after } :: events, ?_, ?_, ?_⟩
    · simp [Cursor.runAll?, hrun, hevents]
    · rw [List.map_cons, hcalls]
    · exact List.forall_mem_cons.mpr ⟨hsafe, hbuffer ▸ hall⟩

/-- A marker is read before its field is found to be short, and then a number finds too few bytes;
the byte that is left is still there for a third call. -/
theorem reading_safe_short_field :
    let buffer : List UInt8 := [0xfd, 7]
    let second : Event :=
      { call := .decode .u32, before := ⟨buffer, 1⟩, answer := .error (.truncated 4 1),
        after := ⟨buffer, 1⟩ }
    let events : List Event :=
      [⟨.compactSize, ⟨buffer, 0⟩, .error (.truncated 2 1), ⟨buffer, 1⟩⟩, second,
        ⟨.decode .u8, ⟨buffer, 1⟩, .ok 7, ⟨buffer, 2⟩⟩]
    (Cursor.start buffer).runAll? [⟨_, .compactSize⟩, ⟨_, .decode .u32⟩, ⟨_, .decode .u8⟩] =
        some events ∧
      second.IsSafe buffer := by
  intro buffer second events
  have heval : (Cursor.start buffer).runAll?
      [⟨_, .compactSize⟩, ⟨_, .decode .u32⟩, ⟨_, .decode .u8⟩] = some events := by cbv
  obtain ⟨events', hrun, -, hsafe⟩ := reading_safe buffer
    [⟨_, .compactSize⟩, ⟨_, .decode .u32⟩, ⟨_, .decode .u8⟩]
  obtain rfl := Option.some.inj (heval.symm.trans hrun)
  exact ⟨heval, hsafe second (by simp [events])⟩

end NodeAdmission.Wire
