import LightClient.Backend.Recording
import LightClient.Storage.Block

/-!
# Stored recordings

A recording is stored as an object of its lists; a list that is missing is empty.
-/
namespace LightClient.Storage
open Json

instance : Codec Recording.Head where
  encode h := .object [("scope", encode h.scope), ("chain", encode h.chain),
    ("index", encode h.index)]
  decode? value := do
    let r ← Record.read? ["scope", "chain", "index"] value
    return {
      scope := ← r.required? "scope"
      chain := ← r.required? "chain"
      index := ← r.required? "index" }

instance : Codec Recording.Entry where
  encode e := .object [("scope", encode e.scope), ("chain", encode e.chain),
    ("index", encode e.index), ("entry_hash", encode e.entryHash),
    ("receipt", encodeOption e.receipt)]
  decode? value := do
    let r ← Record.read? ["scope", "chain", "index", "entry_hash", "receipt"] value
    return {
      scope := ← r.required? "scope"
      chain := ← r.required? "chain"
      index := ← r.required? "index"
      entryHash := ← r.required? "entry_hash"
      receipt := ← r.optional? "receipt" }

instance : Codec Recording.BlockAt where
  encode b := .object [("scope", encode b.scope), ("height", encode b.height),
    ("block", encode b.block)]
  decode? value := do
    let r ← Record.read? ["scope", "height", "block"] value
    return {
      scope := ← r.required? "scope"
      height := ← r.required? "height"
      block := ← r.required? "block" }

instance : Codec Recording.AnchorOf where
  encode a := .object [("search", encode a.search), ("root", encode a.root),
    ("anchor", encode a.anchor)]
  decode? value := do
    let r ← Record.read? ["search", "root", "anchor"] value
    return {
      search := ← r.required? "search"
      root := ← r.required? "root"
      anchor := ← r.required? "anchor" }

instance : Codec Recording.CommitAt where
  encode c := .object [("partition", encode c.partition), ("height", encode c.height),
    ("commit", encode c.commit)]
  decode? value := do
    let r ← Record.read? ["partition", "height", "commit"] value
    return {
      partition := ← r.required? "partition"
      height := ← r.required? "height"
      commit := ← r.required? "commit" }

instance : Codec Recording.ValidatorsAt where
  encode v := .object [("partition", encode v.partition), ("height", encode v.height),
    ("validators", encode v.validators)]
  decode? value := do
    let r ← Record.read? ["partition", "height", "validators"] value
    return {
      partition := ← r.required? "partition"
      height := ← r.required? "height"
      validators := ← r.required? "validators" }

instance : Codec Recording.Outage where
  encode o := .object [("query", encode o.query), ("kind", encode o.kind),
    ("text", encode o.text)]
  decode? value := do
    let r ← Record.read? ["query", "kind", "text"] value
    return {
      query := ← r.required? "query"
      kind := ← r.required? "kind"
      text := ← r.required? "text" }

instance : Codec Recording where
  encode r := .object [("heads", encode r.heads), ("entries", encode r.entries),
    ("blocks", encode r.blocks), ("anchors", encode r.anchors), ("commits", encode r.commits),
    ("validator_sets", encode r.validatorSets), ("transitions", encode r.handovers),
    ("failures", encode r.outages)]
  decode? value := do
    let r ← Record.read? ["heads", "entries", "blocks", "anchors", "commits", "validator_sets",
      "transitions", "failures"] value
    return {
      heads := ← r.orDefault? "heads" []
      entries := ← r.orDefault? "entries" []
      blocks := ← r.orDefault? "blocks" []
      anchors := ← r.orDefault? "anchors" []
      commits := ← r.orDefault? "commits" []
      validatorSets := ← r.orDefault? "validator_sets" []
      handovers := ← r.orDefault? "transitions" []
      outages := ← r.orDefault? "failures" [] }

end LightClient.Storage
