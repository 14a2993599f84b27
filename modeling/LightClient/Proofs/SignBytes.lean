import LightClient.Proofs.Wire

/-!
# What sign bytes tell

The bytes that a validator signs can be read back, also if others follow them: no field of a vote is
lost, and where one is left out the tag of the next one shows it. So one signature is for one vote.
-/
namespace LightClient

/-- The hash of the part set and the name of the chain, which alone have no fixed length in a vote,
are not too long for one piece of memory. Every vote that is ever written down has this property. -/
def PartSet.FitsWith (p : PartSet) (chainId : String) : Prop :=
  p.hash.length + (Bytes.ofText chainId).length ≤ 9223372036854775807

namespace Vote
open Wire

/-- The 64 bits in front of a message are enough for its length. They are for every message that is
ever written down. -/
def Measured (v : Vote) : Prop := v.body.length < UInt64.size

/-- Reads seconds and nanoseconds. -/
def readTimestamp? (bytes : Bytes) : Option Int64 := do
  let (seconds, bytes) ← readOptional? 0x08 0 readVarint? bytes
  let (nanos, bytes) ← readOptional? 0x10 0 readVarint? bytes
  if bytes = [] then
    some (Int64.ofInt (seconds.toInt64.toInt * 1000000000 + nanos.toInt64.toInt))
  else none

def readPartSet? (bytes : Bytes) : Option PartSet := do
  let (total, bytes) ← readOptional? 0x08 0 readVarint? bytes
  let (hash, bytes) ← readOptional? 0x12 [] readBlob? bytes
  if bytes = [] then some ⟨total.toUInt32, hash⟩ else none

def readBlockId? (bytes : Bytes) : Option (Hash × PartSet) := do
  let (hash, bytes) ← readField? 0x0a readBlob? bytes
  let (partSet, bytes) ← readField? 0x12 readBlob? bytes
  let hash ← (Hash.ofBytes hash).toOption
  let partSet ← readPartSet? partSet
  if bytes = [] then some (hash, partSet) else none

def readText? (bytes : Bytes) : Option String := String.fromUTF8? ⟨bytes.toArray⟩

/-- Reads what comes after the round: the block, the time and the chain. -/
def readContents? (bytes : Bytes) : Option ((Hash × PartSet) × Int64 × String) := do
  let (blockId, bytes) ← readField? 0x22 readBlob? bytes
  let (timestamp, bytes) ← readField? 0x2a readBlob? bytes
  let (chainId, bytes) ← readOptional? 0x32 [] readBlob? bytes
  let blockId ← readBlockId? blockId
  let timestamp ← readTimestamp? timestamp
  let chainId ← readText? chainId
  if bytes = [] then some (blockId, timestamp, chainId) else none

/-- Reads a message that is a precommit from its first to its last byte. -/
def readBody? (bytes : Bytes) : Option Vote := do
  let (kind, bytes) ← readOptional? 0x08 0 readVarint? bytes
  let (height, bytes) ← readOptional? 0x11 0 readFixed? bytes
  let (round, bytes) ← readOptional? 0x19 0 readFixed? bytes
  let ((blockHash, partSet), timestamp, chainId) ← readContents? bytes
  if kind = precommitType then
    some ⟨height, round.toInt32, blockHash, partSet, timestamp, chainId⟩
  else none

/-- Reads the vote that a byte string starts with, and leaves what follows. -/
def read? (bytes : Bytes) : Option (Vote × Bytes) := do
  let (body, rest) ← readBlob? bytes
  let vote ← readBody? body
  some (vote, rest)

theorem readTimestamp?_encodeTimestamp (timestamp : Int64) :
    readTimestamp? (encodeTimestamp timestamp) = some timestamp := by
  have low := Int64.le_toInt timestamp
  have high := Int64.toInt_le timestamp
  have least : Int64.minValue.toInt = -9223372036854775808 := by decide
  have most : Int64.maxValue.toInt = 9223372036854775807 := by decide
  have seconds : (Int64.ofInt (timestamp.toInt / 1000000000)).toInt =
      timestamp.toInt / 1000000000 :=
    Int64.toInt_ofInt_of_le (by omega) (by omega)
  have nanos : (Int64.ofInt (timestamp.toInt % 1000000000)).toInt = timestamp.toInt % 1000000000 :=
    Int64.toInt_ofInt_of_le (by omega) (by omega)
  have whole : timestamp.toInt / 1000000000 * 1000000000 + timestamp.toInt % 1000000000
      = timestamp.toInt := by omega
  have split : encodeTimestamp timestamp
      = numberField 0x08 (Int64.ofInt (timestamp.toInt / 1000000000)).toUInt64
        ++ (numberField 0x10 (Int64.ofInt (timestamp.toInt % 1000000000)).toUInt64 ++ []) := by
    simp [encodeTimestamp]
  have second := readOptional?_numberField 0x10
    (Int64.ofInt (timestamp.toInt % 1000000000)).toUInt64 [] (by simp)
  have first := readOptional?_numberField 0x08
    (Int64.ofInt (timestamp.toInt / 1000000000)).toUInt64
    (numberField 0x10 (Int64.ofInt (timestamp.toInt % 1000000000)).toUInt64 ++ [])
    (head?_numberField_ne _ [] (by decide) (by simp))
  simp only [readTimestamp?, split, Option.bind_eq_bind, Option.bind_some, first, second]
  simp [seconds, nanos, whole]

theorem readPartSet?_encodePartSet {p : PartSet} (fits : p.hash.length < UInt64.size) :
    readPartSet? (encodePartSet p) = some p := by
  have split : encodePartSet p = numberField 0x08 p.total.toUInt64 ++
      (bytesField 0x12 p.hash ++ []) := by
    simp [encodePartSet]
  have hash := readOptional?_bytesField 0x12 p.hash [] (by simp) fits
  have total := readOptional?_numberField 0x08 p.total.toUInt64 (bytesField 0x12 p.hash ++ [])
    (head?_bytesField_ne _ [] (by decide) (by simp))
  simp only [readPartSet?, split, Option.bind_eq_bind, Option.bind_some, total, hash]
  simp

theorem length_encodePartSet_le (p : PartSet) : (encodePartSet p).length ≤ p.hash.length + 22 := by
  have total := length_numberField_le 0x08 p.total.toUInt64
  have hash := length_bytesField_le 0x12 p.hash
  rw [encodePartSet, List.length_append]
  omega

theorem length_encodeBlockId_le (v : Vote) :
    v.encodeBlockId.length ≤ v.partSet.hash.length + 76 := by
  have hash := length_field_le 0x0a v.blockHash.bytes
  have partSet := length_field_le 0x12 (encodePartSet v.partSet)
  have inner := length_encodePartSet_le v.partSet
  rw [v.blockHash.length_bytes] at hash
  rw [encodeBlockId, List.length_append]
  omega

theorem length_encodeTimestamp_le (timestamp : Int64) :
    (encodeTimestamp timestamp).length ≤ 22 := by
  have seconds := length_numberField_le 0x08 (Int64.ofInt (timestamp.toInt / 1000000000)).toUInt64
  have nanos := length_numberField_le 0x10 (Int64.ofInt (timestamp.toInt % 1000000000)).toUInt64
  rw [encodeTimestamp, List.length_append]
  omega

theorem length_body_le (v : Vote) :
    v.body.length ≤ v.partSet.hash.length + (Bytes.ofText v.chainId).length + 160 := by
  have kind := length_numberField_le 0x08 precommitType
  have height := length_fixedField_le 0x11 v.height
  have round := length_fixedField_le 0x19 v.round.toInt64
  have blockId := length_field_le 0x22 v.encodeBlockId
  have timestamp := length_field_le 0x2a (encodeTimestamp v.timestamp)
  have chainId := length_bytesField_le 0x32 (Bytes.ofText v.chainId)
  have innerId := length_encodeBlockId_le v
  have innerTime := length_encodeTimestamp_le v.timestamp
  simp only [body, List.length_append]
  omega

theorem readBlockId?_encodeBlockId {v : Vote} (fits : v.encodeBlockId.length < UInt64.size) :
    readBlockId? v.encodeBlockId = some (v.blockHash, v.partSet) := by
  have whole : (field 0x12 (encodePartSet v.partSet)).length ≤ v.encodeBlockId.length := by
    simp [encodeBlockId]
  have inner := le_length_field 0x12 (encodePartSet v.partSet)
  have innermost := le_length_bytesField 0x12 v.partSet.hash
  have within : (bytesField 0x12 v.partSet.hash).length ≤ (encodePartSet v.partSet).length := by
    simp [encodePartSet]
  have split : v.encodeBlockId
      = field 0x0a v.blockHash.bytes ++ (field 0x12 (encodePartSet v.partSet) ++ []) := by
    simp [encodeBlockId]
  have hash := readField?_field 0x0a v.blockHash.bytes (field 0x12 (encodePartSet v.partSet) ++ [])
    (by rw [v.blockHash.length_bytes]; decide)
  have partSet := readField?_field 0x12 (encodePartSet v.partSet) [] (by omega)
  have digest : (Hash.ofBytes v.blockHash.bytes).toOption = some v.blockHash := by
    rw [Hash.ofBytes, dif_pos v.blockHash.length_bytes]
    rfl
  have parts : readPartSet? (encodePartSet v.partSet) = some v.partSet :=
    readPartSet?_encodePartSet (by omega)
  simp only [readBlockId?, split, Option.bind_eq_bind, Option.bind_some, hash, partSet,
    digest, parts]
  simp

theorem readText?_ofText (text : String) : readText? (Bytes.ofText text) = some text := by
  have valid : String.fromUTF8? text.toByteArray = some text := by
    unfold String.fromUTF8?
    rw [dif_pos text.isValidUTF8]
    rfl
  simpa [readText?, Bytes.ofText] using valid

theorem readContents?_contents {v : Vote} (fits : v.Measured) :
    readContents? (field 0x22 v.encodeBlockId ++ (field 0x2a (encodeTimestamp v.timestamp)
      ++ (bytesField 0x32 (Bytes.ofText v.chainId) ++ [])))
    = some ((v.blockHash, v.partSet), v.timestamp, v.chainId) := by
  have outerId := le_length_field 0x22 v.encodeBlockId
  have outerTime := le_length_field 0x2a (encodeTimestamp v.timestamp)
  have outerText := le_length_bytesField 0x32 (Bytes.ofText v.chainId)
  unfold Measured at fits
  simp only [body, List.length_append] at fits
  have blockId : readBlockId? v.encodeBlockId = some (v.blockHash, v.partSet) :=
    readBlockId?_encodeBlockId (by omega)
  have third := readOptional?_bytesField 0x32 (Bytes.ofText v.chainId) [] (by simp) (by omega)
  have second := readField?_field 0x2a (encodeTimestamp v.timestamp)
    (bytesField 0x32 (Bytes.ofText v.chainId) ++ []) (by omega)
  have first := readField?_field 0x22 v.encodeBlockId (field 0x2a (encodeTimestamp v.timestamp)
    ++ (bytesField 0x32 (Bytes.ofText v.chainId) ++ [])) (by omega)
  simp only [readContents?, Option.bind_eq_bind, Option.bind_some, first, second, third, blockId,
    readTimestamp?_encodeTimestamp, readText?_ofText]
  simp

theorem readBody?_body {v : Vote} (fits : v.Measured) : readBody? v.body = some v := by
  have contents := readContents?_contents fits
  have start : (field 0x22 v.encodeBlockId ++ (field 0x2a (encodeTimestamp v.timestamp)
      ++ (bytesField 0x32 (Bytes.ofText v.chainId) ++ []))).head? = some 0x22 := rfl
  have split : v.body = numberField 0x08 precommitType ++ (fixedField 0x11 v.height
      ++ (fixedField 0x19 v.round.toInt64 ++ (field 0x22 v.encodeBlockId
        ++ (field 0x2a (encodeTimestamp v.timestamp)
          ++ (bytesField 0x32 (Bytes.ofText v.chainId) ++ []))))) := by
    simp [body]
  -- Only the tag of the contents matters for the three numbers before them.
  rw [split]
  generalize field 0x22 v.encodeBlockId ++ (field 0x2a (encodeTimestamp v.timestamp)
    ++ (bytesField 0x32 (Bytes.ofText v.chainId) ++ [])) = rest at contents start ⊢
  have noKind : rest.head? ≠ some 0x08 := by simp [start]
  have noHeight : rest.head? ≠ some 0x11 := by simp [start]
  have noRound : rest.head? ≠ some 0x19 := by simp [start]
  have third := readOptional?_fixedField 0x19 v.round.toInt64 rest noRound
  have second := readOptional?_fixedField 0x11 v.height (fixedField 0x19 v.round.toInt64 ++ rest)
    (head?_fixedField_ne _ rest (by decide) noHeight)
  have first := readOptional?_numberField 0x08 precommitType
    (fixedField 0x11 v.height ++ (fixedField 0x19 v.round.toInt64 ++ rest))
    (head?_fixedField_ne _ _ (by decide) (head?_fixedField_ne _ rest (by decide) noKind))
  simp only [readBody?, Option.bind_eq_bind, Option.bind_some, first, second, third, contents]
  simp

theorem measured_of_fitsWith {v : Vote} (fits : v.partSet.FitsWith v.chainId) : v.Measured := by
  have size : UInt64.size = 18446744073709551616 := rfl
  have length := length_body_le v
  unfold PartSet.FitsWith at fits
  unfold Measured
  omega

/-- Sign bytes are read back as the vote they are of, whatever follows them. -/
theorem read?_signBytes {v : Vote} (fits : v.Measured) (rest : Bytes) :
    read? (v.signBytes ++ rest) = some (v, rest) := by
  have message := readBlob?_blob v.body rest fits
  simp only [read?, signBytes, Option.bind_eq_bind, Option.bind_some, message, readBody?_body fits]

/-- A vote is determined by what starts with its sign bytes, and so is what follows them. -/
theorem signBytes_append_injective {v w : Vote} {rest rest' : Bytes} (fitsV : v.Measured)
    (fitsW : w.Measured) (same : v.signBytes ++ rest = w.signBytes ++ rest') :
    v = w ∧ rest = rest' := by
  have readV := read?_signBytes fitsV rest
  rw [same, read?_signBytes fitsW rest'] at readV
  obtain ⟨vote, later⟩ := Prod.mk.inj (Option.some.inj readV)
  exact ⟨vote.symm, later.symm⟩

/-- Two votes with the same sign bytes are the same. -/
theorem signBytes_injective {v w : Vote} (fitsV : v.partSet.FitsWith v.chainId)
    (fitsW : w.partSet.FitsWith w.chainId) (same : v.signBytes = w.signBytes) : v = w :=
  (signBytes_append_injective (measured_of_fitsWith fitsV) (measured_of_fitsWith fitsW)
    (congrArg (· ++ []) same)).1

/-- The length in front of a message is read off, and is that of the message. -/
theorem readVarint?_signBytes {v : Vote} (fits : v.Measured) (rest : Bytes) :
    ∃ length, readVarint? (v.signBytes ++ rest) = some (length, v.body ++ rest) ∧
      length.toNat = v.body.length := by
  refine ⟨UInt64.ofNat v.body.length, ?_, UInt64.toNat_ofNat_of_lt fits⟩
  rw [signBytes, List.append_assoc, readVarint?_varint]

/-- One reader takes every vote from the front of its sign bytes and leaves what follows. So votes
with the same sign bytes are the same, the sign bytes of one vote do not start those of another, and
the number in front of a message is the message's length. -/
theorem signBytes_uniquely_decodable {v w : Vote} (fitsV : v.Measured) (fitsW : w.Measured) :
    (∀ rest, read? (v.signBytes ++ rest) = some (v, rest)) ∧
      (v.signBytes = w.signBytes ↔ v = w) ∧ (v.signBytes <+: w.signBytes ↔ v = w) ∧
      ∀ rest, ∃ length, readVarint? (v.signBytes ++ rest) = some (length, v.body ++ rest) ∧
        length.toNat = v.body.length := by
  have starts : v.signBytes <+: w.signBytes → v = w := by
    rintro ⟨rest, whole⟩
    rw [← List.append_nil w.signBytes] at whole
    exact (signBytes_append_injective fitsV fitsW whole).1
  refine ⟨read?_signBytes fitsV, ⟨fun same => starts (same ▸ List.prefix_refl _), congrArg _⟩,
    ⟨starts, fun same => same ▸ List.prefix_refl _⟩, readVarint?_signBytes fitsV⟩

namespace Sample

/-- A vote before the epoch in which whatever may be left out is. -/
def sparse : Vote := ⟨0, 0, .zero, .none, -1, ""⟩

/-- A vote with negative numbers and a chain of which the name is no ASCII. -/
def negative : Vote := ⟨-7, -1, .zero, ⟨4294967295, [0, 255]⟩, Int64.minValue, "réseau"⟩

end Sample

/-- The two have different bytes, whatever is appended to either. -/
theorem sparse_negative_decodable :
    Sample.sparse.Measured ∧ Sample.negative.Measured ∧
      read? (Sample.sparse.signBytes ++ Sample.negative.signBytes)
        = some (Sample.sparse, Sample.negative.signBytes) ∧
      ¬Sample.sparse.signBytes <+: Sample.negative.signBytes ∧
      ¬Sample.negative.signBytes <+: Sample.sparse.signBytes := by
  have sparse : Sample.sparse.Measured := by unfold Measured; decide
  have negative : Sample.negative.Measured := by unfold Measured; decide
  have distinct : Sample.sparse ≠ Sample.negative := by decide
  obtain ⟨reads, -, starts, -⟩ := signBytes_uniquely_decodable sparse negative
  obtain ⟨-, -, starts', -⟩ := signBytes_uniquely_decodable negative sparse
  exact ⟨sparse, negative, reads _, fun h => distinct (starts.1 h),
    fun h => distinct (starts'.1 h).symm⟩

end Vote

end LightClient
