import LightClient.Failure

/-!
# Settings of a verifier

Every setting has a default. Settings are accepted if the authority partition is a URL, the chain
has a name, and the cache can hold an entry.

Module `config` of the specification (section 10.5): `VerifierConfig` and `CacheConfig` with
`validate` and `authority`.
-/
namespace LightClient

/-- Settings of a cache. -/
structure CacheConfig where
  /-- How long an entry is kept, in seconds, unless it is stored with a time of its own. -/
  defaultTtl : UInt64
  /-- The most entries that all tables together may hold. -/
  maxEntries : UInt64
  deriving DecidableEq, Repr

/-- Five minutes and 1024 entries. -/
def CacheConfig.default : CacheConfig := ⟨300, 1024⟩

/-- Settings of a verifier. -/
structure Config where
  /-- The digest of receipts and handover messages. -/
  algorithm : HashAlgorithm
  /-- The partition that gathers anchors and whose validators sign them. -/
  authorityPartition : String
  /-- The chain whose last entry proves an account's state. -/
  chain : String
  cache : CacheConfig
  deriving DecidableEq, Repr

namespace Config

def default : Config := ⟨.sha256, Url.directory.text, "main", .default⟩

/-- The authority partition as a URL. -/
def authority (c : Config) : Except Failure Url :=
  match Url.parse c.authorityPartition with
  | .ok url => .ok url
  | .error e => .error (.ofUrlError e)

/-- Accepts settings and returns the authority partition. -/
def accept (c : Config) : Except Failure Url := do
  let authority ← c.authority
  if Text.isBlankText c.chain then throw (.malformed "chain_name is empty")
  else if c.cache.maxEntries = 0 then
    throw (.malformed "cache.max_entries must be at least 1")
  else return authority

end Config

end LightClient
