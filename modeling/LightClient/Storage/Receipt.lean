import LightClient.Backend
import LightClient.Inclusion
import LightClient.Json.Record

/-!
# Stored hashes, URLs and receipts

Hashes and byte strings are stored in hexadecimal form, URLs as texts, and enumerations by the names
of their cases.

Modules `types::hash` and `types::receipt` of the specification (section 10.7): the stored forms of
their records.
-/
namespace LightClient.Storage
open Json

/-- The case of an enumeration that a value names. -/
def decodeCase? {α : Type} (cases : List α) (name : α → String) (value : Json) : Option α :=
  (caseName? value).bind fun n => cases.find? fun c => name c = n

instance : Codec Bytes where
  encode bytes := .string (Hex.encode bytes)
  decode?
    | .string text => Hex.bytes? text
    | _ => none

instance : Codec Hash where
  encode h := .string h.toHex
  decode?
    | .string text => (Hash.ofHex text).toOption
    | _ => none

/-- The stored name of a digest. -/
def algorithmName : HashAlgorithm → String
  | .sha256 => "sha256"
  | .keccak256 => "keccak256"

instance : Codec HashAlgorithm where
  encode a := .string (algorithmName a)
  decode? := decodeCase? [.sha256, .keccak256] algorithmName

instance : Codec Url where
  encode u := .string u.text
  decode?
    | .string text => (Url.parse text).toOption
    | _ => none

instance : Codec Receipt.Step where
  encode s := .object [("sibling_hash", encode s.sibling), ("is_right_sibling", encode s.onRight)]
  decode? value := do
    let r ← Record.read? ["sibling_hash", "is_right_sibling"] value
    return {
      sibling := ← r.required? "sibling_hash"
      onRight := ← r.required? "is_right_sibling" }

instance : Codec Receipt where
  encode r := .object [("start", encode r.start), ("anchor", encode r.anchor),
    ("local_block", encode r.localBlock), ("entries", encode r.steps)]
  decode? value := do
    let r ← Record.read? ["start", "anchor", "local_block", "entries"] value
    return {
      start := ← r.required? "start"
      anchor := ← r.required? "anchor"
      localBlock := ← r.required? "local_block"
      steps := ← r.required? "entries" }

instance : Codec Anchor where
  encode a := .object [("source_partition", encode a.sourcePartition),
    ("target_partition", encode a.targetPartition), ("anchor_hash", encode a.anchored),
    ("receipt", encode a.receipt)]
  decode? value := do
    let r ← Record.read? ["source_partition", "target_partition", "anchor_hash", "receipt"] value
    return {
      sourcePartition := ← r.required? "source_partition"
      targetPartition := ← r.required? "target_partition"
      anchored := ← r.required? "anchor_hash"
      receipt := ← r.required? "receipt" }

instance : Codec Inclusion where
  encode p := .object [("scope", encode p.scope), ("chain_name", encode p.chain),
    ("chain_index", encode p.index), ("leaf", encode p.leaf), ("receipt", encode p.receipt),
    ("anchor", encode p.anchor), ("local_block", encode p.localBlock),
    ("source_partition", encode p.sourcePartition)]
  decode? value := do
    let r ← Record.read? ["scope", "chain_name", "chain_index", "leaf", "receipt", "anchor",
      "local_block", "source_partition"] value
    return {
      scope := ← r.required? "scope"
      chain := ← r.required? "chain_name"
      index := ← r.required? "chain_index"
      leaf := ← r.required? "leaf"
      receipt := ← r.required? "receipt"
      anchor := ← r.required? "anchor"
      localBlock := ← r.required? "local_block"
      sourcePartition := ← r.required? "source_partition" }

end LightClient.Storage
