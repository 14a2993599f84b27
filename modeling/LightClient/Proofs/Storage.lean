import LightClient.Proofs.Codecs
import LightClient.Storage.Text

/-!
# Records survive storage

Every record that is written is read back, and so is every record that was read from any text,
however it was spelled there. Only the details of findings need a condition: a text tells integers
of 64 bits exactly, and a reader follows arrays and objects within each other up to a limit.
-/
namespace LightClient.Storage
open Json

/-- The types of records that a text may hold. -/
inductive Kind where
  | hash
  | hashAlgorithm
  | url
  | step
  | receipt
  | anchor
  | inclusion
  | validator
  | precommit
  | partSet
  | headerPath
  | block
  | commit
  | finality
  | handover
  | genesis
  | genesisTrace
  | failureKind
  | finding
  | trustLevel
  | timing
  | report
  | metrics
  | cacheConfig
  | config
  deriving DecidableEq, Repr

namespace Kind

/-- The records of a kind, with their stored form. -/
@[reducible] def form : Kind → (α : Type) × Codec α
  | hash => ⟨Hash, inferInstance⟩
  | hashAlgorithm => ⟨HashAlgorithm, inferInstance⟩
  | url => ⟨Url, inferInstance⟩
  | step => ⟨Receipt.Step, inferInstance⟩
  | receipt => ⟨Receipt, inferInstance⟩
  | anchor => ⟨Anchor, inferInstance⟩
  | inclusion => ⟨Inclusion, inferInstance⟩
  | validator => ⟨Validator, inferInstance⟩
  | precommit => ⟨Precommit, inferInstance⟩
  | partSet => ⟨PartSet, inferInstance⟩
  | headerPath => ⟨HeaderPath, inferInstance⟩
  | block => ⟨Block, inferInstance⟩
  | commit => ⟨Commit, inferInstance⟩
  | finality => ⟨Finality, inferInstance⟩
  | handover => ⟨Handover, inferInstance⟩
  | genesis => ⟨Genesis, inferInstance⟩
  | genesisTrace => ⟨GenesisTrace, inferInstance⟩
  | failureKind => ⟨Failure.Kind, inferInstance⟩
  | finding => ⟨Finding, inferInstance⟩
  | trustLevel => ⟨TrustLevel, inferInstance⟩
  | timing => ⟨Timing, inferInstance⟩
  | report => ⟨Report, inferInstance⟩
  | metrics => ⟨Cache.Metrics, inferInstance⟩
  | cacheConfig => ⟨CacheConfig, inferInstance⟩
  | config => ⟨Config, inferInstance⟩

/-- The records of a kind. -/
abbrev Value (k : Kind) : Type := k.form.1

instance (k : Kind) : Codec k.Value := k.form.2

/-- The details that a record holds, each with the number of arrays and objects around its
finding. -/
def details : (k : Kind) → k.Value → List (Nat × Json)
  | finding, f => f.details.toList.map fun d => (0, d.2)
  | report, p => p.findings.flatMap fun f => f.details.toList.map fun d => (2, d.2)
  | _, _ => []

/-- Every number in the details is an integer of 64 bits, signed or not. -/
def Whole (k : Kind) (x : k.Value) : Prop := ∀ d ∈ k.details x, d.2.Plain

/-- The details are values in the form in which they are kept, with the members of every object in
ascending order of distinct names, and they are not nested beyond what a reader follows. -/
def Shallow (k : Kind) (x : k.Value) : Prop := ∀ d ∈ k.details x, d.2.Canonical (detailDepth d.1)

theorem survives {k : Kind} {x : k.Value} (whole : k.Whole x) (shallow : k.Shallow x) :
    Survives x := by
  cases k with
  | finding =>
    refine survives_finding fun d hd => ?_
    have mem : (0, d.2) ∈ details finding x := List.mem_map.2 ⟨d, hd, rfl⟩
    exact ⟨whole _ mem, shallow _ mem⟩
  | report =>
    refine survives_report fun f hf d hd => ?_
    have mem : (2, d.2) ∈ details report x :=
      List.mem_flatMap.2 ⟨f, hf, List.mem_map.2 ⟨d, hd, rfl⟩⟩
    exact ⟨whole _ mem, shallow _ mem⟩
  | _ => exact Lawful.survives _

end Kind

/-! ## What is read can be written again -/

theorem canonical_of_decodeDetails? {outer : Nat} {value : Json} {details : Keyed Json}
    (h : decodeDetails? outer value = some details) :
    ∀ d ∈ details.toList, d.2.Canonical (detailDepth outer) := by
  intro d hd
  cases value with
  | object members =>
    obtain ⟨bindings, read, rfl⟩ := Option.map_eq_some_iff.1 h
    obtain ⟨m, -, member⟩ := List.exists_mem_of_mapM read d (Keyed.mem_of_mem_ofList hd)
    obtain ⟨form, canonical, rfl⟩ := Option.map_eq_some_iff.1 member
    exact canonical_of_canonical? canonical
  | _ => cases h

theorem canonical_of_decodeFinding? {outer : Nat} {value : Json} {f : Finding}
    (h : decodeFinding? outer value = some f) :
    ∀ d ∈ f.details.toList, d.2.Canonical (detailDepth outer) := by
  simp only [decodeFinding?, Option.bind_eq_bind, Option.bind_eq_some_iff, Option.pure_def,
    Option.some.injEq] at h
  obtain ⟨r, -, layer, -, valid, -, details, ⟨member, -, read⟩, message, -, kind, -, rfl⟩ := h
  exact canonical_of_decodeDetails? read

theorem canonical_of_decodeReport? {value : Json} {p : Report} (h : decode? value = some p) :
    ∀ f ∈ p.findings, ∀ d ∈ f.details.toList, d.2.Canonical (detailDepth 2) := by
  simp only [decode?, Option.bind_eq_bind, Option.bind_eq_some_iff, Option.pure_def,
    Option.some.injEq] at h
  obtain ⟨r, -, account, -, level, -, findings, ⟨layers, -, read⟩, inclusion, -, finality, -,
    timing, -, rfl⟩ := h
  intro f hf
  cases layers with
  | array items =>
    obtain ⟨item, -, one⟩ := List.exists_mem_of_mapM read f hf
    exact canonical_of_decodeFinding? one
  | _ => cases read

namespace Kind

/-- Details that were read are in the form in which they are kept. -/
theorem shallow_of_decode? {k : Kind} {value : Json} {x : k.Value} (h : decode? value = some x) :
    k.Shallow x := by
  cases k with
  | finding =>
    intro d hd
    obtain ⟨b, hb, rfl⟩ := List.mem_map.1 hd
    exact canonical_of_decodeFinding? h b hb
  | report =>
    intro d hd
    obtain ⟨f, hf, hd⟩ := List.mem_flatMap.1 hd
    obtain ⟨b, hb, rfl⟩ := List.mem_map.1 hd
    exact canonical_of_decodeReport? h f hf b hb
  | _ => exact fun _ h => absurd h List.not_mem_nil

end Kind

theorem read?_write {α : Type} [Codec α] {a : α} (h : Survives a) : read? (write a) = some a := by
  rw [read?, write, parse?_render h.plain, Option.bind_some, h.decoded]

/-- A record of any kind is read back from its text; and a record that was read from any text is
written to one that is read as the same record and written again as the same text. -/
theorem records_survive (k : Kind) :
    (∀ x : k.Value, k.Whole x → k.Shallow x → read? (write x) = some x) ∧
      ∀ (text : String) (x : k.Value), read? text = some x → k.Whole x →
        read? (write x) = some x ∧
          (read? (write x) : Option k.Value).map write = some (write x) := by
  have back (x : k.Value) (whole : k.Whole x) (shallow : k.Shallow x) : read? (write x) = some x :=
    read?_write (Kind.survives whole shallow)
  refine ⟨back, fun text x read whole => ?_⟩
  obtain ⟨value, -, decoded⟩ := Option.bind_eq_some_iff.1 read
  have again := back x whole (Kind.shallow_of_decode? decoded)
  exact ⟨again, by rw [again, Option.map_some]⟩

namespace Sample

/-- The only detail of a finding. -/
def detail : Json := .array [.object [("x", .integer (-1)), ("y", .null)]]

def finding : Finding where
  layer := "é"
  valid := true
  details := Keyed.empty.insert "n" detail
  errorMessage := none
  errorKind := none

/-- The finding with its members in disorder, one of them twice, another unknown and two left
out. -/
def spelled : String :=
  "\x7b\"z\":[],\"valid\":true," ++ "\"details\":\x7b\"n\":[\x7b\"y\":0,\"x\":-1,"
    ++ "\"y\":null\x7d]\x7d,\"layer_name\":\"\\u00e9\"\x7d"

theorem plain_detail : detail.Plain := by
  refine .array fun item h => ?_
  obtain rfl := List.mem_singleton.1 h
  refine .object fun m hm => ?_
  simp only [List.mem_cons, List.not_mem_nil, or_false] at hm
  rcases hm with rfl | rfl
  · exact .integer (by decide)
  · exact .null

theorem whole_finding : Kind.finding.Whole finding := by
  intro d hd
  obtain rfl := List.mem_singleton.1 hd
  exact plain_detail

theorem shallow_finding : Kind.finding.Shallow finding := by
  intro d hd
  obtain rfl := List.mem_singleton.1 hd
  have kept : canonical? (detailDepth 0) detail = some detail := rfl
  exact canonical_of_canonical? kept

theorem read?_spelled : (read? spelled : Option Finding) = some finding := by
  have parsed : parse? spelled = some (.object [("z", .array []), ("valid", .bool true),
      ("details", .object [("n", .array [.object [("y", .integer 0), ("x", .integer (-1)),
        ("y", .null)]])]), ("layer_name", .string "é")]) := by
    unfold parse? spelled
    simp only [String.toList_append, String.reduceToList, List.cons_append, List.nil_append]
    rfl
  rw [read?, parsed]
  rfl

end Sample

/-- A finding with nested details survives, and so does what is read from its other spelling. -/
theorem nested_finding_survives :
    (Kind.finding.Whole Sample.finding ∧ Kind.finding.Shallow Sample.finding ∧
      (read? Sample.spelled : Option Finding) = some Sample.finding) ∧
    (read? (write Sample.finding) : Option Finding) = some Sample.finding ∧
      ((read? (write Sample.finding) : Option Finding)).map write = some (write Sample.finding) :=
  ⟨⟨Sample.whole_finding, Sample.shallow_finding, Sample.read?_spelled⟩,
    (records_survive .finding).1 _ Sample.whole_finding Sample.shallow_finding,
    ((records_survive .finding).2 _ _ Sample.read?_spelled Sample.whole_finding).2⟩

end LightClient.Storage
