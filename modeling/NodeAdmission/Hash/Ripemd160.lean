import NodeAdmission.Hash.Block
/-!
# RIPEMD-160

The hash function of 20 bytes: two lines of eighty steps over five words for every block, whose
results are added crosswise to the state.
-/

namespace NodeAdmission.Hash.Ripemd160

/-- The five words that every block updates. -/
structure State where
  a : UInt32
  b : UInt32
  c : UInt32
  d : UInt32
  e : UInt32

namespace State

/-- The state before the first block. -/
def initial : State where
  a := 0x67452301
  b := 0xefcdab89
  c := 0x98badcfe
  d := 0x10325476
  e := 0xc3d2e1f0

/-- The words of a state in order. -/
def words (s : State) : List UInt32 := [s.a, s.b, s.c, s.d, s.e]

end State

/-! ## Tables -/

/-- The five mixing functions, one for each sixteen steps of the left line. -/
def mixers : List (UInt32 → UInt32 → UInt32 → UInt32) :=
  [fun x y z ↦ x ^^^ y ^^^ z,
   fun x y z ↦ (x &&& y) ||| (~~~x &&& z),
   fun x y z ↦ (x ||| ~~~y) ^^^ z,
   fun x y z ↦ (x &&& z) ||| (y &&& ~~~z),
   fun x y z ↦ x ^^^ (y ||| ~~~z)]

/-- What sixteen steps of a line have in common: the mixing function and the constant. -/
structure Phase where
  mix : UInt32 → UInt32 → UInt32 → UInt32
  constant : UInt32

/-- The phases of the left line. -/
def leftPhases : List Phase :=
  (mixers.zip [0x00000000, 0x5a827999, 0x6ed9eba1, 0x8f1bbcdc, 0xa953fd4e]).map
    fun (mix, constant) ↦ { mix, constant }

/-- The phases of the right line, which takes the mixing functions in reverse order. -/
def rightPhases : List Phase :=
  (mixers.reverse.zip [0x50a28be6, 0x5c4dd124, 0x6d703ef3, 0x7a6d76e9, 0x00000000]).map
    fun (mix, constant) ↦ { mix, constant }

/-- The positions of the message words that the left line reads, phase by phase. -/
def leftWords : List (List Nat) :=
  [[0, 1, 2, 3, 4, 5, 6, 7, 8, 9, 10, 11, 12, 13, 14, 15],
   [7, 4, 13, 1, 10, 6, 15, 3, 12, 0, 9, 5, 2, 14, 11, 8],
   [3, 10, 14, 4, 9, 15, 8, 1, 2, 7, 0, 6, 13, 11, 5, 12],
   [1, 9, 11, 10, 0, 8, 12, 4, 13, 3, 7, 15, 14, 5, 6, 2],
   [4, 0, 5, 9, 7, 12, 2, 10, 14, 1, 3, 8, 11, 6, 15, 13]]

/-- The positions of the message words that the right line reads, phase by phase. -/
def rightWords : List (List Nat) :=
  [[5, 14, 7, 0, 9, 2, 11, 4, 13, 6, 15, 8, 1, 10, 3, 12],
   [6, 11, 3, 7, 0, 13, 5, 10, 14, 15, 8, 12, 4, 9, 1, 2],
   [15, 5, 1, 3, 7, 14, 6, 9, 11, 8, 12, 2, 10, 0, 4, 13],
   [8, 6, 4, 1, 3, 11, 15, 0, 5, 12, 2, 13, 9, 7, 10, 14],
   [12, 15, 10, 4, 1, 5, 8, 7, 6, 2, 13, 14, 0, 3, 9, 11]]

/-- The rotations of the left line, phase by phase. -/
def leftRotations : List (List UInt32) :=
  [[11, 14, 15, 12, 5, 8, 7, 9, 11, 13, 14, 15, 6, 7, 9, 8],
   [7, 6, 8, 13, 11, 9, 7, 15, 7, 12, 15, 9, 11, 7, 13, 12],
   [11, 13, 6, 7, 14, 9, 13, 15, 14, 8, 13, 6, 5, 12, 7, 5],
   [11, 12, 14, 15, 14, 15, 9, 8, 9, 14, 5, 6, 8, 6, 5, 12],
   [9, 15, 5, 11, 6, 8, 13, 12, 5, 12, 13, 14, 11, 8, 5, 6]]

/-- The rotations of the right line, phase by phase. -/
def rightRotations : List (List UInt32) :=
  [[8, 9, 9, 11, 13, 15, 15, 5, 7, 7, 8, 11, 14, 14, 12, 6],
   [9, 13, 15, 7, 12, 8, 9, 11, 7, 7, 12, 7, 6, 15, 13, 11],
   [9, 7, 15, 11, 8, 6, 6, 14, 12, 13, 5, 14, 13, 13, 7, 5],
   [15, 5, 8, 11, 14, 14, 6, 14, 6, 9, 12, 9, 12, 5, 15, 8],
   [8, 5, 12, 9, 12, 5, 14, 6, 8, 13, 6, 5, 15, 13, 11, 11]]

/-! ## The two lines -/

/-- One step, with the position of a message word and a rotation. -/
def step (phase : Phase) (block : List UInt32) (s : State) (input : Nat × UInt32) : State :=
  let t := rotateLeft (s.a + phase.mix s.b s.c s.d + block.getD input.1 0 + phase.constant)
    input.2 + s.e
  { a := s.e, b := t, c := s.b, d := rotateLeft s.c 10, e := s.d }

/-- The eighty steps of one line. -/
def line (phases : List Phase) (positions : List (List Nat)) (rotations : List (List UInt32))
    (block : List UInt32) (s : State) : State :=
  (phases.zip (positions.zip rotations)).foldl
    (fun s (phase, positions, rotations) ↦ (positions.zip rotations).foldl (step phase block) s) s

/-- The state after one more block of sixteen words. -/
def absorb (s : State) (block : List UInt32) : State :=
  let l := line leftPhases leftWords leftRotations block s
  let r := line rightPhases rightWords rightRotations block s
  { a := s.b + l.c + r.d, b := s.c + l.d + r.e, c := s.d + l.e + r.a, d := s.e + l.a + r.b,
    e := s.a + l.b + r.c }

/-- The state after the whole message. -/
def finish (message : List UInt8) : State :=
  (messageBlocks (littleEndian 8) ofLittleEndian message).foldl absorb .initial

end Ripemd160

/-- The RIPEMD-160 hash of a message. -/
def ripemd160 (message : List UInt8) : KeyId where
  toList := (Ripemd160.finish message).words.flatMap fun w ↦ littleEndian 4 w.toNat
  length_toList := by simp [Ripemd160.State.words]

end NodeAdmission.Hash
