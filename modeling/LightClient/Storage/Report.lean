import LightClient.Cache
import LightClient.Json.Canonical
import LightClient.Storage.Block

/-!
# Stored findings, reports and settings

Details of a finding are kept in canonical form. A stored report also tells whether it is verified,
but this is not read back: it follows from the level of trust.

Modules `types::report` and `config` of the specification (sections 10.5 and 10.7): the stored forms
of their records.
-/
namespace LightClient.Storage
open Json

/-- Reads a collection; of a repeated key the last value counts. -/
def decodeKeyed? {α : Type} (decodeValue? : Json → Option α) : Json → Option (Keyed α)
  | .object members =>
    (members.mapM fun (m : String × Json) => (decodeValue? m.2).map fun value => (m.1, value)).map
      Keyed.ofList
  | _ => none

/-- Writes a collection in the order of its keys. -/
def encodeKeyed {α : Type} (encodeValue : α → Json) (m : Keyed α) : Json :=
  .object (m.toList.map fun (key, value) => (key, encodeValue value))

instance : Codec (Keyed UInt64) where
  encode := encodeKeyed encode
  decode? := decodeKeyed? decode?

/-- How many arrays and objects may stand within each other in a detail of a finding that itself
stands within `outer` of them: the finding and its details are two more. -/
def detailDepth (outer : Nat) : Nat := maxDepth - (outer + 2)

/-- Reads the details of a finding that stands within `outer` arrays and objects. -/
def decodeDetails? (outer : Nat) : Json → Option (Keyed Json) :=
  decodeKeyed? (canonical? (detailDepth outer))

instance : Codec (Keyed Json) where
  encode := encodeKeyed id
  decode? := decodeDetails? 0

instance : Codec Failure.Kind where
  encode k := .string k.name
  decode? := decodeCase? Failure.Kind.all Failure.Kind.name

/-- Reads a finding that stands within `outer` arrays and objects. -/
def decodeFinding? (outer : Nat) (value : Json) : Option Finding := do
  let r ← Record.read? ["layer_name", "valid", "details", "error_message", "error_kind"] value
  return {
    layer := ← r.required? "layer_name"
    valid := ← r.required? "valid"
    details := ← (r.fields.lookup "details").bind (decodeDetails? outer)
    errorMessage := ← r.optional? "error_message"
    errorKind := ← r.optional? "error_kind" }

instance : Codec Finding where
  encode f := .object [("layer_name", encode f.layer), ("valid", encode f.valid),
    ("details", encode f.details), ("error_message", encodeOption f.errorMessage),
    ("error_kind", encodeOption f.errorKind)]
  decode? := decodeFinding? 0

/-- Reads the findings of a report, which stand within the report and within their array. -/
def decodeFindings? : Json → Option (List Finding)
  | .array items => items.mapM (decodeFinding? 2)
  | _ => none

instance : Codec TrustLevel where
  encode t := .string t.name
  decode? := decodeCase? TrustLevel.all TrustLevel.name

instance : Codec Timing where
  encode t := .object [("started_at_ms", encode t.startedAt),
    ("total_micros", encode t.totalMicros), ("layer_micros", encode t.layerMicros)]
  decode? value := do
    let r ← Record.read? ["started_at_ms", "total_micros", "layer_micros"] value
    return {
      startedAt := ← r.required? "started_at_ms"
      totalMicros := ← r.required? "total_micros"
      layerMicros := ← r.required? "layer_micros" }

instance : Codec Report where
  encode p := .object [("account", encode p.account), ("verified", encode p.verified),
    ("trust_level", encode p.trustLevel), ("layers", encode p.findings),
    ("inclusion", encodeOption p.inclusion), ("consensus", encodeOption p.finality),
    ("timing", encode p.timing)]
  decode? value := do
    let r ← Record.read? ["account", "trust_level", "layers", "inclusion", "consensus",
      "timing"] value
    return {
      account := ← r.required? "account"
      trustLevel := ← r.required? "trust_level"
      findings := ← (r.fields.lookup "layers").bind decodeFindings?
      inclusion := ← r.optional? "inclusion"
      finality := ← r.optional? "consensus"
      timing := ← r.required? "timing" }

instance : Codec Cache.Metrics where
  encode m := .object [("hits", encode m.hits), ("misses", encode m.misses),
    ("evictions", encode m.evictions), ("expirations", encode m.expirations)]
  decode? value := do
    let r ← Record.read? ["hits", "misses", "evictions", "expirations"] value
    return {
      hits := ← r.required? "hits"
      misses := ← r.required? "misses"
      evictions := ← r.required? "evictions"
      expirations := ← r.required? "expirations" }

instance : Codec CacheConfig where
  encode c := .object [("default_ttl_secs", encode c.defaultTtl),
    ("max_entries", encode c.maxEntries)]
  decode? value := do
    let r ← Record.readClosed? ["default_ttl_secs", "max_entries"] value
    return {
      defaultTtl := ← r.orDefault? "default_ttl_secs" CacheConfig.default.defaultTtl
      maxEntries := ← r.orDefault? "max_entries" CacheConfig.default.maxEntries }

instance : Codec Config where
  encode c := .object [("hash_algorithm", encode c.algorithm),
    ("authority_partition", encode c.authorityPartition), ("chain_name", encode c.chain),
    ("cache", encode c.cache)]
  decode? value := do
    let r ← Record.readClosed? ["hash_algorithm", "authority_partition", "chain_name",
      "cache"] value
    return {
      algorithm := ← r.orDefault? "hash_algorithm" Config.default.algorithm
      authorityPartition := ← r.orDefault? "authority_partition" Config.default.authorityPartition
      chain := ← r.orDefault? "chain_name" Config.default.chain
      cache := ← r.orDefault? "cache" Config.default.cache }

end LightClient.Storage
