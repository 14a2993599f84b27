import LightClient.Finality
import LightClient.Genesis
import LightClient.Storage.Receipt

/-!
# Stored blocks, commits and validator sets

Module `types::consensus` of the specification (section 10.7): the stored forms of its records.
-/
namespace LightClient.Storage
open Json

instance : Codec Validator where
  encode v := .object [("address", encode v.address), ("public_key", encode v.publicKey),
    ("voting_power", encode v.power)]
  decode? value := do
    let r ← Record.read? ["address", "public_key", "voting_power"] value
    return {
      address := ← r.required? "address"
      publicKey := ← r.required? "public_key"
      power := ← r.required? "voting_power" }

instance : Codec Precommit where
  encode p := .object [("validator_address", encode p.address), ("signature", encode p.signature),
    ("timestamp", encode p.timestamp)]
  decode? value := do
    let r ← Record.read? ["validator_address", "signature", "timestamp"] value
    return {
      address := ← r.required? "validator_address"
      signature := ← r.required? "signature"
      timestamp := ← r.required? "timestamp" }

instance : Codec PartSet where
  encode p := .object [("total", encode p.total), ("hash", encode p.hash)]
  decode? value := do
    let r ← Record.read? ["total", "hash"] value
    return { total := ← r.required? "total", hash := ← r.required? "hash" }

instance : Codec HeaderPath where
  encode p := .object [("total", encode p.total), ("index", encode p.index),
    ("aunts", encode p.aunts)]
  decode? value := do
    let r ← Record.read? ["total", "index", "aunts"] value
    return {
      total := ← r.required? "total"
      index := ← r.required? "index"
      aunts := ← r.required? "aunts" }

instance : Codec Block where
  encode b := .object [("height", encode b.height), ("block_hash", encode b.blockHash),
    ("app_hash", encode b.appHash), ("app_hash_proof", encode b.appHashPath),
    ("source_partition", encodeOption b.sourcePartition), ("chain_id", encode b.chainId),
    ("part_set_header", encode b.partSet)]
  decode? value := do
    let r ← Record.read? ["height", "block_hash", "app_hash", "app_hash_proof",
      "source_partition", "chain_id", "part_set_header"] value
    return {
      height := ← r.required? "height"
      blockHash := ← r.required? "block_hash"
      appHash := ← r.required? "app_hash"
      appHashPath := ← r.required? "app_hash_proof"
      sourcePartition := ← r.optional? "source_partition"
      chainId := ← r.required? "chain_id"
      partSet := ← r.orDefault? "part_set_header" PartSet.none }

instance : Codec Commit where
  encode c := .object [("height", encode c.height), ("round", encode c.round),
    ("block_hash", encode c.blockHash), ("signatures", encode c.precommits)]
  decode? value := do
    let r ← Record.read? ["height", "round", "block_hash", "signatures"] value
    return {
      height := ← r.required? "height"
      round := ← r.required? "round"
      blockHash := ← r.required? "block_hash"
      precommits := ← r.required? "signatures" }

instance : Codec Finality where
  encode f := .object [("block_height", encode f.blockHeight), ("block_hash", encode f.blockHash),
    ("chain_id", encode f.chainId), ("round", encode f.round),
    ("validators", encode f.validators), ("signatures", encode f.precommits),
    ("total_power", encode f.totalPower), ("signed_power", encode f.signedPower)]
  decode? value := do
    let r ← Record.read? ["block_height", "block_hash", "chain_id", "round", "validators",
      "signatures", "total_power", "signed_power"] value
    return {
      blockHeight := ← r.required? "block_height"
      blockHash := ← r.required? "block_hash"
      chainId := ← r.required? "chain_id"
      round := ← r.required? "round"
      validators := ← r.required? "validators"
      precommits := ← r.required? "signatures"
      totalPower := ← r.required? "total_power"
      signedPower := ← r.required? "signed_power" }

instance : Codec Handover where
  encode h := .object [("from_height", encode h.fromHeight), ("to_height", encode h.toHeight),
    ("old_validators", encode h.oldSet), ("new_validators", encode h.newSet),
    ("signatures", encode h.signatures), ("approvals", encode h.approvals)]
  decode? value := do
    let r ← Record.read? ["from_height", "to_height", "old_validators", "new_validators",
      "signatures", "approvals"] value
    return {
      fromHeight := ← r.required? "from_height"
      toHeight := ← r.required? "to_height"
      oldSet := ← r.required? "old_validators"
      newSet := ← r.required? "new_validators"
      signatures := ← r.required? "signatures"
      approvals := ← r.required? "approvals" }

instance : Codec Genesis where
  encode g := .object [("genesis_hash", encode g.hash), ("validators", encode g.validators)]
  decode? value := do
    let r ← Record.read? ["genesis_hash", "validators"] value
    return { hash := ← r.required? "genesis_hash", validators := ← r.required? "validators" }

instance : Codec GenesisTrace where
  encode t := .object [("genesis_hash", encode t.genesisHash),
    ("current_height", encode t.currentHeight), ("height_path", encode t.heightPath),
    ("transitions_applied", encode t.handovers)]
  decode? value := do
    let r ← Record.read? ["genesis_hash", "current_height", "height_path",
      "transitions_applied"] value
    return {
      genesisHash := ← r.required? "genesis_hash"
      currentHeight := ← r.required? "current_height"
      heightPath := ← r.required? "height_path"
      handovers := ← r.required? "transitions_applied" }

end LightClient.Storage
