import NodeAdmission.Hash.Block
/-!
# SHA-256

The hash function of 32 bytes: sixty-four rounds over eight words for every block of the message.
-/

namespace NodeAdmission.Hash.Sha256

/-- The eight words that every block updates. -/
structure State where
  a : UInt32
  b : UInt32
  c : UInt32
  d : UInt32
  e : UInt32
  f : UInt32
  g : UInt32
  h : UInt32

namespace State

/-- The state before the first block. -/
def initial : State where
  a := 0x6a09e667
  b := 0xbb67ae85
  c := 0x3c6ef372
  d := 0xa54ff53a
  e := 0x510e527f
  f := 0x9b05688c
  g := 0x1f83d9ab
  h := 0x5be0cd19

/-- The sum of two states, word by word. -/
def add (s t : State) : State :=
  ⟨s.a + t.a, s.b + t.b, s.c + t.c, s.d + t.d, s.e + t.e, s.f + t.f, s.g + t.g, s.h + t.h⟩

/-- The words of a state in order. -/
def words (s : State) : List UInt32 := [s.a, s.b, s.c, s.d, s.e, s.f, s.g, s.h]

end State

/-- One constant per round. -/
def roundConstants : List UInt32 :=
  [0x428a2f98, 0x71374491, 0xb5c0fbcf, 0xe9b5dba5, 0x3956c25b, 0x59f111f1, 0x923f82a4, 0xab1c5ed5,
   0xd807aa98, 0x12835b01, 0x243185be, 0x550c7dc3, 0x72be5d74, 0x80deb1fe, 0x9bdc06a7, 0xc19bf174,
   0xe49b69c1, 0xefbe4786, 0x0fc19dc6, 0x240ca1cc, 0x2de92c6f, 0x4a7484aa, 0x5cb0a9dc, 0x76f988da,
   0x983e5152, 0xa831c66d, 0xb00327c8, 0xbf597fc7, 0xc6e00bf3, 0xd5a79147, 0x06ca6351, 0x14292967,
   0x27b70a85, 0x2e1b2138, 0x4d2c6dfc, 0x53380d13, 0x650a7354, 0x766a0abb, 0x81c2c92e, 0x92722c85,
   0xa2bfe8a1, 0xa81a664b, 0xc24b8b70, 0xc76c51a3, 0xd192e819, 0xd6990624, 0xf40e3585, 0x106aa070,
   0x19a4c116, 0x1e376c08, 0x2748774c, 0x34b0bcb5, 0x391c0cb3, 0x4ed8aa4a, 0x5b9cca4f, 0x682e6ff3,
   0x748f82ee, 0x78a5636f, 0x84c87814, 0x8cc70208, 0x90befffa, 0xa4506ceb, 0xbef9a3f7, 0xc67178f2]

/-- The words of a block extended by `count` further ones. The list is kept newest word first. -/
def expand : Nat → List UInt32 → List UInt32
  | 0, ws => ws.reverse
  | count + 1, ws =>
    let x := ws.getD 14 0
    let y := ws.getD 1 0
    let low := rotateRight x 7 ^^^ rotateRight x 18 ^^^ x >>> 3
    let high := rotateRight y 17 ^^^ rotateRight y 19 ^^^ y >>> 10
    expand count ((ws.getD 15 0 + low + ws.getD 6 0 + high) :: ws)

/-- One round with its constant and its word of the schedule. -/
def round (s : State) (input : UInt32 × UInt32) : State :=
  let choice := (s.e &&& s.f) ^^^ (~~~s.e &&& s.g)
  let majority := (s.a &&& s.b) ^^^ (s.a &&& s.c) ^^^ (s.b &&& s.c)
  let t₁ := s.h + (rotateRight s.e 6 ^^^ rotateRight s.e 11 ^^^ rotateRight s.e 25) + choice +
    input.1 + input.2
  let t₂ := (rotateRight s.a 2 ^^^ rotateRight s.a 13 ^^^ rotateRight s.a 22) + majority
  { a := t₁ + t₂, b := s.a, c := s.b, d := s.c, e := s.d + t₁, f := s.e, g := s.f, h := s.g }

/-- The state after one more block of sixteen words. -/
def absorb (s : State) (block : List UInt32) : State :=
  s.add ((roundConstants.zip (expand 48 block.reverse)).foldl round s)

/-- The state after the whole message. -/
def finish (message : List UInt8) : State :=
  (messageBlocks (bigEndian 8) ofBigEndian message).foldl absorb .initial

end Sha256

/-- The SHA-256 hash of a message. -/
def sha256 (message : List UInt8) : Hash where
  toList := (Sha256.finish message).words.flatMap fun w ↦ bigEndian 4 w.toNat
  length_toList := by simp [Sha256.State.words]

end NodeAdmission.Hash
