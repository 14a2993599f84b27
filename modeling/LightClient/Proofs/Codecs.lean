import LightClient.Proofs.Canonical
import LightClient.Proofs.JsonText
import LightClient.Storage.Report

/-!
# Stored forms are read back

The stored form of a value is read as this value and consists of what a text can tell: for numbers
of every width, hexadecimal bytes, hashes, URLs and named cases, and from them for every record. A
record needs no more than that its fields come back. Findings and reports come back if their details
do.
-/
namespace LightClient

theorem List.mapM_map_eq_some {α β : Type} {f : α → β} {g : β → Option α} {l : List α}
    (each : ∀ a ∈ l, g (f a) = some a) : (l.map f).mapM g = some l := by
  induction l with
  | nil => rfl
  | cons a l ih =>
    simp [each a List.mem_cons_self, ih fun b hb => each b (List.mem_cons_of_mem _ hb)]

theorem List.exists_mem_of_mapM {α β : Type} {f : α → Option β} {l : List α} {r : List β}
    (h : l.mapM f = some r) : ∀ b ∈ r, ∃ a ∈ l, f a = some b := by
  induction l generalizing r with
  | nil =>
    cases h
    exact fun _ h => absurd h List.not_mem_nil
  | cons a l ih =>
    simp only [List.mapM_cons, Option.bind_eq_bind, Option.bind_eq_some_iff, Option.pure_def,
      Option.some.injEq] at h
    obtain ⟨b, here, rest, later, rfl⟩ := h
    intro c hc
    rcases List.mem_cons.1 hc with rfl | hc
    · exact ⟨a, List.mem_cons_self, here⟩
    · obtain ⟨d, hd, read⟩ := ih later c hc
      exact ⟨d, List.mem_cons_of_mem _ hd, read⟩

theorem List.forall_mem_of_mapM {α β : Type} {f : α → Option β} {l : List α} {r : List β}
    (h : l.mapM f = some r) : ∀ a ∈ l, ∃ b ∈ r, f a = some b := by
  induction l generalizing r with
  | nil => exact fun _ h => absurd h List.not_mem_nil
  | cons a l ih =>
    simp only [List.mapM_cons, Option.bind_eq_bind, Option.bind_eq_some_iff, Option.pure_def,
      Option.some.injEq] at h
    obtain ⟨b, here, rest, later, rfl⟩ := h
    intro c hc
    rcases List.mem_cons.1 hc with rfl | hc
    · exact ⟨b, List.mem_cons_self, here⟩
    · obtain ⟨d, hd, read⟩ := ih later c hc
      exact ⟨d, List.mem_cons_of_mem _ hd, read⟩

namespace Hex

/-- The byte of a hexadecimal digit in a text. -/
def digitByte (d : Nat) : UInt8 := UInt8.ofNat (Nat.digitChar d).toNat

theorem value?_digitByte : ∀ d < 16, value? (digitByte d) = some d := by decide

theorem ofText_encode (bytes : Bytes) : Bytes.ofText (encode bytes) =
    bytes.flatMap fun b => [digitByte (b.toNat / 16), digitByte (b.toNat % 16)] := by
  have ascii : ∀ d < 16, String.utf8EncodeChar (Nat.digitChar d) = [digitByte d] := by decide
  have utf8 : Bytes.ofText (encode bytes) =
      (bytes.flatMap digits).flatMap String.utf8EncodeChar := by
    change (bytes.flatMap digits).utf8Encode.data.toList = _
    simp [List.utf8Encode]
  rw [utf8, List.flatMap_assoc]
  congr 1
  funext b
  have := b.toNat_lt
  simp [digits, ascii (b.toNat / 16) (by omega), ascii (b.toNat % 16) (by omega)]

theorem decodeFrom_digitBytes (bytes : Bytes) (position : Nat) : decodeFrom position
    (bytes.flatMap fun b => [digitByte (b.toNat / 16), digitByte (b.toNat % 16)]) = .ok bytes := by
  induction bytes generalizing position with
  | nil => rfl
  | cons b rest ih =>
    have := b.toNat_lt
    have high := value?_digitByte (b.toNat / 16) (by omega)
    have low := value?_digitByte (b.toNat % 16) (by omega)
    have whole : UInt8.ofNat (16 * (b.toNat / 16) + b.toNat % 16) = b := by
      rw [show 16 * (b.toNat / 16) + b.toNat % 16 = b.toNat by omega, UInt8.ofNat_toNat]
    simp [decodeFrom, high, low, ih, whole, Except.map]

/-- A written byte string does not look as if it were marked. -/
theorem dropMark_encode (bytes : Bytes) :
    dropMark (encode bytes) = Bytes.ofText (encode bytes) := by
  unfold dropMark
  split
  · rename_i rest marked
    rw [ofText_encode] at marked
    have noMark : ∀ d < 16, digitByte d ≠ 0x78 := by decide
    cases bytes with
    | nil => cases marked
    | cons b tail =>
      obtain ⟨-, second⟩ := List.cons.inj marked
      exact absurd (List.cons.inj second).1 (noMark _ (by omega))
  · rfl

theorem length_ofText_encode (bytes : Bytes) :
    (Bytes.ofText (encode bytes)).length = 2 * bytes.length := by
  rw [ofText_encode, List.length_flatMap]
  simp [Nat.mul_comm]

theorem decode_encode (bytes : Bytes) : decode (dropMark (encode bytes)) = .ok bytes := by
  rw [decode, dropMark_encode, length_ofText_encode, if_neg (by omega), ofText_encode]
  exact decodeFrom_digitBytes bytes 0

end Hex

theorem Hash.ofHex_toHex (h : Hash) : ofHex h.toHex = .ok h := by
  have whole : (Hex.dropMark h.toHex).length = 64 := by
    rw [toHex, Hex.dropMark_encode, Hex.length_ofText_encode, h.length_bytes]
  rw [ofHex, if_pos whole, toHex, Hex.decode_encode]
  exact dif_pos h.length_bytes

namespace Json

/-- What is needed of a value to come back from storage: its stored form is read as this value,
holds only what a text can tell, and is not taken for a missing one. -/
structure Survives {α : Type} [Codec α] (a : α) : Prop where
  decoded : decode? (encode a) = some a
  plain : (encode a).Plain
  present : encode a ≠ .null

/-- A type all of whose values come back from storage. -/
class Lawful (α : Type) [Codec α] : Prop where
  survives (a : α) : Survives a

section Laws
variable {α : Type} [Codec α]

@[simp] theorem decode?_encode [Lawful α] (a : α) : decode? (encode a) = some a :=
  (Lawful.survives a).decoded

@[simp] theorem plain_encode [Lawful α] (a : α) : (encode a).Plain := (Lawful.survives a).plain

@[simp] theorem plain_encodeOption [Lawful α] (o : Option α) : (encodeOption o).Plain := by
  cases o with
  | none => exact .null
  | some a => exact plain_encode a

theorem Survives.list {items : List α} (each : ∀ a ∈ items, Survives a) : Survives items where
  decoded := List.mapM_map_eq_some fun a ha => (each a ha).decoded
  plain := .array fun item h => by
    obtain ⟨a, ha, rfl⟩ := List.mem_map.1 h
    exact (each a ha).plain
  present := nofun

instance [Lawful α] : Lawful (List α) where
  survives _ := .list fun a _ => Lawful.survives a

namespace Record

/-- A field that may be null is not, because no stored form is. -/
theorem optional?_of_lookup [Lawful α] {r : Record} {name : String} {o : Option α}
    (found : r.fields.lookup name = some (encodeOption o)) : r.optional? name = some o := by
  rw [optional?, found]
  cases o with
  | none => rfl
  | some a =>
    dsimp only [encodeOption]
    split
    · contradiction
    · rename_i missing
      exact absurd (Option.some.inj missing) (Lawful.survives a).present
    · rename_i value _ whole
      rw [← Option.some.inj whole, decode?_encode, Option.map_some]

theorem read?_of_filter {names : List String} {members fields : List (String × Json)}
    (kept : members.filter (fun m => names.contains m.1) = fields)
    (distinct : (fields.map (·.1)).Nodup) :
    read? names (.object members) = some ⟨fields, false⟩ := by
  rw [read?, kept, if_pos distinct]

theorem read?_object {names : List String} {members : List (String × Json)}
    (named : members.map (·.1) = names) (distinct : names.Nodup) :
    read? names (.object members) = some ⟨members, false⟩ :=
  read?_of_filter (List.filter_eq_self.2 fun m hm => by simpa [← named] using ⟨m.2, hm⟩)
    (named ▸ distinct)

theorem readClosed?_object {names : List String} {members : List (String × Json)}
    (named : members.map (·.1) = names) (distinct : names.Nodup) :
    readClosed? names (.object members) = some ⟨members, false⟩ := by
  have all : (members.all fun m => names.contains m.1) = true :=
    List.all_eq_true.2 fun m hm => by simpa [← named] using ⟨m.2, hm⟩
  rw [readClosed?, if_pos all, read?_object named distinct]

end Record

theorem Survives.object {a : α} {members : List (String × Json)}
    (encoded : encode a = .object members) (decoded : decode? (.object members) = some a)
    (plain : ∀ m ∈ members, m.2.Plain) : Survives a where
  decoded := encoded ▸ decoded
  plain := encoded ▸ .object plain
  present := by rw [encoded]; nofun

section Records
variable {a : α} {names : List String} {members : List (String × Json)} {build : Record → Option α}

/-- A record comes back if its fields are its members and these come back. For a record all of whose
fields are required, the last three facts are computed from its definition. -/
theorem Survives.record (encoded : encode a = .object members)
    (decoded : ∀ value, decode? value = (Record.read? names value).bind build)
    (named : members.map (·.1) = names) (distinct : names.Nodup := by decide)
    (plain : ∀ m ∈ members, m.2.Plain := by simp)
    (built : build ⟨members, false⟩ = some a := by simp [Record.required?, List.lookup_cons]) :
    Survives a :=
  .object encoded
    (by rw [decoded, Record.read?_object named distinct, Option.bind_some, built]) plain

/-- The same for a record that allows no other members and has a default for every field. -/
theorem Survives.closedRecord (encoded : encode a = .object members)
    (decoded : ∀ value, decode? value = (Record.readClosed? names value).bind build)
    (named : members.map (·.1) = names) (distinct : names.Nodup := by decide)
    (plain : ∀ m ∈ members, m.2.Plain := by simp)
    (built : build ⟨members, false⟩ = some a := by simp [Record.orDefault?, List.lookup_cons]) :
    Survives a :=
  .object encoded
    (by rw [decoded, Record.readClosed?_object named distinct, Option.bind_some, built]) plain

end Records

end Laws

/-! ## Basic forms -/

instance : Lawful Bool where
  survives b := ⟨rfl, .bool b, nofun⟩

instance : Lawful String where
  survives text := ⟨rfl, .string text, nofun⟩

theorem isWord_of_bounds {n : Int} (low : -9223372036854775808 ≤ n)
    (high : n ≤ 18446744073709551615) : IsWord n := by
  have least : Int64.minValue.toInt = -9223372036854775808 := by decide
  have size : UInt64.size = 18446744073709551616 := rfl
  constructor <;> omega

/-- A number comes back if it lies within the bounds of its type. -/
theorem Survives.integer {α : Type} [Codec α] {a : α} {n low high : Int} {ofInt : Int → α}
    (encoded : encode a = .integer n)
    (decoded : ∀ value, decode? value = (integerIn? low high value).map ofInt)
    (inside : low ≤ n ∧ n ≤ high) (word : IsWord n) (back : ofInt n = a) : Survives a where
  decoded := by rw [encoded, decoded, integerIn?, if_pos inside, Option.map_some, back]
  plain := encoded ▸ .integer word
  present := by rw [encoded]; nofun

instance : Lawful UInt64 where
  survives n := by
    have := n.toNat_lt
    have size : UInt64.size = 18446744073709551616 := rfl
    exact .integer rfl (fun _ => rfl) ⟨by omega, by omega⟩
      (isWord_of_bounds (by omega) (by omega)) (by simp)

instance : Lawful UInt32 where
  survives n := by
    have := n.toNat_lt
    have size : UInt32.size = 4294967296 := rfl
    exact .integer rfl (fun _ => rfl) ⟨by omega, by omega⟩
      (isWord_of_bounds (by omega) (by omega)) (by simp)

instance : Lawful Int64 where
  survives n := by
    have low := n.le_toInt
    have high := n.toInt_lt
    exact .integer rfl (fun _ => rfl) ⟨n.minValue_le_toInt, n.toInt_le⟩
      (isWord_of_bounds (by omega) (by omega)) (by simp)

instance : Lawful Int32 where
  survives n := by
    have low := n.le_toInt
    have high := n.toInt_lt
    exact .integer rfl (fun _ => rfl) ⟨n.minValue_le_toInt, n.toInt_le⟩
      (isWord_of_bounds (by omega) (by omega)) (by simp)

end Json

namespace Storage
open Json

instance : Lawful Bytes where
  survives bytes := {
    decoded := by
      change (Hex.decode (Hex.dropMark (Hex.encode bytes))).toOption = some bytes
      rw [Hex.decode_encode]
      rfl
    plain := .string _
    present := nofun }

instance : Lawful Hash where
  survives h := {
    decoded := by
      change (Hash.ofHex h.toHex).toOption = some h
      rw [Hash.ofHex_toHex]
      rfl
    plain := .string _
    present := nofun }

instance : Lawful Url where
  survives u := {
    decoded := by
      change (Url.parse u.text).toOption = some u
      rw [Url.parse_text]
      rfl
    plain := .string _
    present := nofun }

instance : Lawful HashAlgorithm where
  survives a := ⟨by cases a <;> rfl, .string _, nofun⟩

instance : Lawful Failure.Kind where
  survives k := ⟨by cases k <;> rfl, .string _, nofun⟩

instance : Lawful TrustLevel where
  survives t := ⟨by cases t <;> rfl, .string _, nofun⟩

/-! ## Records -/

instance : Lawful Receipt.Step where
  survives _ := .record rfl (fun _ => rfl) rfl

instance : Lawful Receipt where
  survives _ := .record rfl (fun _ => rfl) rfl

instance : Lawful Anchor where
  survives _ := .record rfl (fun _ => rfl) rfl

instance : Lawful Inclusion where
  survives _ := .record rfl (fun _ => rfl) rfl

instance : Lawful Validator where
  survives _ := .record rfl (fun _ => rfl) rfl

instance : Lawful Precommit where
  survives _ := .record rfl (fun _ => rfl) rfl

instance : Lawful PartSet where
  survives _ := .record rfl (fun _ => rfl) rfl

instance : Lawful HeaderPath where
  survives _ := .record rfl (fun _ => rfl) rfl

instance : Lawful Block where
  survives b := .record rfl (fun _ => rfl) rfl (by decide) (by simp)
    (by simp [Record.required?, Record.orDefault?, List.lookup_cons,
      Record.optional?_of_lookup (o := b.sourcePartition)])

instance : Lawful Commit where
  survives _ := .record rfl (fun _ => rfl) rfl

instance : Lawful Finality where
  survives _ := .record rfl (fun _ => rfl) rfl

instance : Lawful Handover where
  survives _ := .record rfl (fun _ => rfl) rfl

instance : Lawful Genesis where
  survives _ := .record rfl (fun _ => rfl) rfl

instance : Lawful GenesisTrace where
  survives _ := .record rfl (fun _ => rfl) rfl

instance : Lawful Cache.Metrics where
  survives _ := .record rfl (fun _ => rfl) rfl

instance : Lawful CacheConfig where
  survives _ := .closedRecord rfl (fun _ => rfl) rfl

instance : Lawful Config where
  survives _ := .closedRecord rfl (fun _ => rfl) rfl

/-! ## Collections, findings and reports -/

theorem decodeKeyed?_encodeKeyed {α : Type} {encodeValue : α → Json}
    {decodeValue? : Json → Option α} {m : Keyed α}
    (each : ∀ b ∈ m.toList, decodeValue? (encodeValue b.2) = some b.2) :
    decodeKeyed? decodeValue? (encodeKeyed encodeValue m) = some m := by
  have all : (m.toList.map fun b => (b.1, encodeValue b.2)).mapM (fun (b : String × Json) =>
      (decodeValue? b.2).map fun value => (b.1, value)) = some m.toList :=
    List.mapM_map_eq_some fun b hb => by rw [each b hb, Option.map_some]
  change Option.map Keyed.ofList (List.mapM _ (m.toList.map fun b => (b.1, encodeValue b.2))) = _
  rw [all, Option.map_some, Keyed.ofList_toList]

theorem plain_encodeKeyed {α : Type} {encodeValue : α → Json} {m : Keyed α}
    (each : ∀ b ∈ m.toList, (encodeValue b.2).Plain) : (encodeKeyed encodeValue m).Plain := by
  refine .object fun b hb => ?_
  obtain ⟨c, hc, rfl⟩ := List.mem_map.1 hb
  exact each c hc

instance : Lawful (Keyed UInt64) where
  survives _ := {
    decoded := decodeKeyed?_encodeKeyed fun b _ => decode?_encode b.2
    plain := plain_encodeKeyed fun b _ => plain_encode b.2
    present := nofun }

instance : Lawful Timing where
  survives _ := .record rfl (fun _ => rfl) rfl

/-- Details of a finding within `outer` arrays and objects that come back from storage. -/
def Storable (outer : Nat) (details : Keyed Json) : Prop :=
  ∀ d ∈ details.toList, d.2.Plain ∧ d.2.Canonical (detailDepth outer)

theorem decodeDetails?_encode {outer : Nat} {details : Keyed Json} (h : Storable outer details) :
    decodeDetails? outer (encode details) = some details :=
  decodeKeyed?_encodeKeyed fun d hd => canonical?_eq_self (h d hd).2

theorem plain_details {outer : Nat} {details : Keyed Json} (h : Storable outer details) :
    (encode details).Plain :=
  plain_encodeKeyed fun d hd => (h d hd).1

theorem decodeFinding?_encode {outer : Nat} {f : Finding} (h : Storable outer f.details) :
    decodeFinding? outer (encode f) = some f := by
  have fields : Record.read? ["layer_name", "valid", "details", "error_message", "error_kind"]
      (encode f) = some ⟨_, false⟩ := Record.read?_object rfl (by decide)
  rw [decodeFinding?, fields]
  simp [Record.required?, List.lookup_cons, decodeDetails?_encode h,
    Record.optional?_of_lookup (o := f.errorMessage), Record.optional?_of_lookup (o := f.errorKind)]

theorem plain_finding {outer : Nat} {f : Finding} (h : Storable outer f.details) :
    (encode f).Plain := by
  refine .object fun m hm => ?_
  simp only [List.mem_cons, List.not_mem_nil, or_false] at hm
  rcases hm with rfl | rfl | rfl | rfl | rfl <;> simp [plain_details h]

theorem survives_finding {f : Finding} (h : Storable 0 f.details) : Survives f :=
  ⟨decodeFinding?_encode h, plain_finding h, nofun⟩

theorem decodeFindings?_encode {findings : List Finding}
    (each : ∀ f ∈ findings, Storable 2 f.details) :
    decodeFindings? (encode findings) = some findings :=
  List.mapM_map_eq_some fun f hf => decodeFinding?_encode (each f hf)

theorem plain_findings {findings : List Finding} (each : ∀ f ∈ findings, Storable 2 f.details) :
    (encode findings).Plain := by
  refine .array fun item h => ?_
  obtain ⟨f, hf, rfl⟩ := List.mem_map.1 h
  exact plain_finding (each f hf)

/-- Whether a report is verified is written but not read; it follows from the level of trust. -/
theorem survives_report {p : Report} (each : ∀ f ∈ p.findings, Storable 2 f.details) :
    Survives p where
  decoded := by
    have fields : Record.read? ["account", "trust_level", "layers", "inclusion", "consensus",
        "timing"] (encode p) = some ⟨[("account", encode p.account),
          ("trust_level", encode p.trustLevel), ("layers", encode p.findings),
          ("inclusion", encodeOption p.inclusion), ("consensus", encodeOption p.finality),
          ("timing", encode p.timing)], false⟩ :=
      Record.read?_of_filter (by simp) (by simp)
    change (Record.read? _ (encode p)).bind _ = _
    rw [fields]
    simp [Record.required?, List.lookup_cons, decodeFindings?_encode each,
      Record.optional?_of_lookup (o := p.inclusion), Record.optional?_of_lookup (o := p.finality)]
  plain := by
    refine .object fun m hm => ?_
    simp only [List.mem_cons, List.not_mem_nil, or_false] at hm
    rcases hm with rfl | rfl | rfl | rfl | rfl | rfl | rfl <;> simp [plain_findings each]
  present := nofun

end Storage

end LightClient
