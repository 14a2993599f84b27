import LightClient.Bytes

/-!
# The SHA-2 digests

SHA-256 and SHA-512 are one construction over words of 32 and of 64 bits. A `Variant` holds what
differs between them; padding, message schedule and compression are shared.
-/
namespace LightClient.Sha2

/-- The eight working words. -/
structure State (ω : Type) where
  a : ω
  b : ω
  c : ω
  d : ω
  e : ω
  f : ω
  g : ω
  h : ω

/-- The words of a state in order. -/
def State.words {ω : Type} (s : State ω) : List ω := [s.a, s.b, s.c, s.d, s.e, s.f, s.g, s.h]

/-- What tells one member of the family from another. -/
structure Variant (ω : Type) where
  /-- Bytes in a word; a block has sixteen words. -/
  wordBytes : Nat
  ofNat : Nat → ω
  toNat : ω → Nat
  bigSigma0 : ω → ω
  bigSigma1 : ω → ω
  smallSigma0 : ω → ω
  smallSigma1 : ω → ω
  /-- The round constants, one for each round. -/
  constants : List ω
  initial : State ω

section
variable {ω : Type} [Add ω] [XorOp ω] [AndOp ω] [Complement ω]

/-- One round, with the round constant already added to the scheduled word. -/
@[specialize] def round (v : Variant ω) (s : State ω) (word : ω) : State ω :=
  let choice := (s.e &&& s.f) ^^^ (~~~s.e &&& s.g)
  let majority := (s.a &&& s.b) ^^^ (s.a &&& s.c) ^^^ (s.b &&& s.c)
  let t := s.h + v.bigSigma1 s.e + choice + word
  ⟨t + (v.bigSigma0 s.a + majority), s.a, s.b, s.c, s.d + t, s.e, s.f, s.g⟩

/-- The first `n` words of the message schedule that starts with the sixteen words given. -/
@[specialize] def schedule (v : Variant ω) : Nat → List ω → List ω
  | n + 1, [w0, w1, w2, w3, w4, w5, w6, w7, w8, w9, w10, w11, w12, w13, w14, w15] =>
    w0 :: schedule v n [w1, w2, w3, w4, w5, w6, w7, w8, w9, w10, w11, w12, w13, w14, w15,
      v.smallSigma1 w14 + w9 + v.smallSigma0 w1 + w0]
  | _, _ => []

/-- Folds one block into the state. -/
@[specialize] def compress (v : Variant ω) (s : State ω) (block : Bytes) : State ω :=
  let words := (block.chunks v.wordBytes 16).map fun word => v.ofNat word.ofBigEndian
  let scheduled := schedule v v.constants.length words
  let t := (List.zipWith (· + ·) v.constants scheduled).foldl (round v) s
  ⟨s.a + t.a, s.b + t.b, s.c + t.c, s.d + t.d, s.e + t.e, s.f + t.f, s.g + t.g, s.h + t.h⟩

/-- The message followed by a one bit, the fewest zero bits that fill up a block, and the message's
length in bits as a number of two words. -/
def pad (v : Variant ω) (message : Bytes) : Bytes :=
  let block := 16 * v.wordBytes
  let used := (message.length + 1 + 2 * v.wordBytes) % block
  message ++ 0x80 :: List.replicate ((block - used) % block) 0
    ++ Bytes.bigEndian (2 * v.wordBytes) (8 * message.length)

/-- The state after the whole padded message. -/
@[specialize] def absorb (v : Variant ω) (message : Bytes) : State ω :=
  let padded := pad v message
  let block := 16 * v.wordBytes
  (padded.chunks block (padded.length / block)).foldl (compress v) v.initial

/-- The digest: the words of the last state, each most significant byte first. -/
@[specialize] def digest (v : Variant ω) (message : Bytes) : Bytes :=
  (absorb v message).words.flatMap fun word => Bytes.bigEndian v.wordBytes (v.toNat word)

theorem length_digest (v : Variant ω) (message : Bytes) :
    (digest v message).length = 8 * v.wordBytes := by
  simp only [digest, State.words, List.flatMap_cons, List.flatMap_nil, List.length_append,
    Bytes.length_bigEndian, List.length_nil]
  omega

end

end LightClient.Sha2
