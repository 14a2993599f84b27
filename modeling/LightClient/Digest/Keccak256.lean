import LightClient.Bytes

/-!
# Keccak-256

The sponge over 1600 bits with a rate of 136 bytes, in the form that pads with `0x01` and not with
the domain byte of the later SHA-3 standard. The state is a list of 25 lanes of 64 bits; the lane
in column `x` and row `y` stands at `x + 5 * y`.
-/
namespace LightClient.Keccak256

/-- Bytes that one permutation takes in. -/
def rate : Nat := 136

/-- The word turned left by `n` bits, for `n < 64`. -/
@[inline] def rotateLeft (x n : UInt64) : UInt64 :=
  if n = 0 then x else (x <<< n) ||| (x >>> (64 - n))

/-- What each of the 24 rounds adds to the first lane. -/
def roundConstants : List UInt64 :=
  [0x0000000000000001, 0x0000000000008082, 0x800000000000808a, 0x8000000080008000,
    0x000000000000808b, 0x0000000080000001, 0x8000000080008081, 0x8000000000008009,
    0x000000000000008a, 0x0000000000000088, 0x0000000080008009, 0x000000008000000a,
    0x000000008000808b, 0x800000000000008b, 0x8000000000008089, 0x8000000000008003,
    0x8000000000008002, 0x8000000000000080, 0x000000000000800a, 0x800000008000000a,
    0x8000000080008081, 0x8000000000008080, 0x0000000080000001, 0x8000000080008008]

/-- For each lane of the round's output, the lane it is moved from and by how much it is turned. -/
def moves : List (Nat × UInt64) :=
  [(0, 0), (6, 44), (12, 43), (18, 21), (24, 14),
    (3, 28), (9, 20), (10, 3), (16, 45), (22, 61),
    (1, 1), (7, 6), (13, 25), (19, 8), (20, 18),
    (4, 27), (5, 36), (11, 10), (17, 15), (23, 56),
    (2, 62), (8, 55), (14, 39), (15, 41), (21, 2)]

/-- The lane at an index; lanes out of range read as zero. -/
@[inline] def lane (state : List UInt64) (i : Nat) : UInt64 := state.getD i 0

/-- Adds to every lane the parities of the two neighbouring columns. -/
def theta (state : List UInt64) : List UInt64 :=
  let parity := (List.range 5).map fun x =>
    lane state x ^^^ lane state (x + 5) ^^^ lane state (x + 10) ^^^ lane state (x + 15)
      ^^^ lane state (x + 20)
  let change := (List.range 5).map fun x =>
    lane parity ((x + 4) % 5) ^^^ rotateLeft (lane parity ((x + 1) % 5)) 1
  state.mapIdx fun i word => word ^^^ lane change (i % 5)

/-- Turns every lane and moves it to its new place. -/
def rhoPi (state : List UInt64) : List UInt64 :=
  moves.map fun (source, amount) => rotateLeft (lane state source) amount

/-- Combines each row of five lanes with itself, the one step that is not linear. -/
def chi : List UInt64 → List UInt64
  | a :: b :: c :: d :: e :: rest =>
    (a ^^^ (~~~b &&& c)) :: (b ^^^ (~~~c &&& d)) :: (c ^^^ (~~~d &&& e)) ::
      (d ^^^ (~~~e &&& a)) :: (e ^^^ (~~~a &&& b)) :: chi rest
  | _ => []

/-- Adds the round constant to the first lane. -/
def iota (constant : UInt64) : List UInt64 → List UInt64
  | first :: rest => (first ^^^ constant) :: rest
  | [] => []

/-- The permutation of the state. -/
def permute (state : List UInt64) : List UInt64 :=
  roundConstants.foldl (fun s constant => iota constant (chi (rhoPi (theta s)))) state

/-- Adds a block of `rate` bytes to the first lanes and permutes. -/
def absorb (state : List UInt64) (block : Bytes) : List UInt64 :=
  let words := (block.chunks 8 17).map fun word => UInt64.ofNat word.ofLittleEndian
  permute (state.mapIdx fun i word => word ^^^ lane words i)

/-- The message filled up to whole blocks: a one bit after the message and a one bit at the end. -/
def pad (message : Bytes) : Bytes :=
  match rate - message.length % rate with
  | 1 => message ++ [0x81]
  | gap => message ++ 0x01 :: List.replicate (gap - 2) 0 ++ [0x80]

/-- The Keccak-256 digest of a message: the first four lanes after the last block. -/
def digest (message : Bytes) : Bytes :=
  let padded := pad message
  let state := (padded.chunks rate (padded.length / rate)).foldl absorb (List.replicate 25 0)
  (List.range 4).flatMap fun i => Bytes.littleEndian 8 (lane state i).toNat

@[simp] theorem length_digest (message : Bytes) : (digest message).length = 32 := by
  simp [digest, List.range, List.range.loop]

end LightClient.Keccak256
