import LightClient.Failure
import LightClient.Json.Record
import LightClient.Keyed

/-!
# Findings of the layers

A verification goes through five layers, each of which needs the one before it. What a layer found
is recorded in one form: whether it holds, details under names, and the failure if there is one.

Module `types::report` of the specification (sections 3 and 10.7): `LayerResult` with `passed`,
`failed`, `skipped` and `with_detail`, and the order of the layers.
-/
namespace LightClient

/-- The layers of a verification. -/
inductive Layer where
  | entryInclusion
  | stateCommitment
  | partitionAnchor
  | blockSignatures
  | genesisTrust
  deriving DecidableEq, Repr

namespace Layer

def name : Layer → String
  | entryInclusion => "layer1_entry_inclusion"
  | stateCommitment => "layer2_state_commitment"
  | partitionAnchor => "layer2_5_partition_anchor"
  | blockSignatures => "layer3_block_signatures"
  | genesisTrust => "layer4_genesis_trust"

/-- The layers in the order in which they run. -/
def all : List Layer :=
  [entryInclusion, stateCommitment, partitionAnchor, blockSignatures, genesisTrust]

/-- The layers that run after a layer. -/
def after (layer : Layer) : List Layer := (all.dropWhile (· ≠ layer)).drop 1

end Layer

/-- What one layer found. -/
structure Finding where
  layer : String
  valid : Bool
  details : Keyed Json
  errorMessage : Option String
  errorKind : Option Failure.Kind

namespace Finding

def passed (layer : String) : Finding := ⟨layer, true, .empty, none, none⟩

/-- The finding of a layer that failed; its message tells the failure with all contexts. -/
def failed (layer : String) (f : Failure) : Finding :=
  ⟨layer, false, .empty, some f.report, some f.kind⟩

/-- The finding of a layer that did not run. -/
def skipped (layer reason : String) : Finding :=
  ⟨layer, false, Keyed.empty.insert "skipped" (.bool true), some reason, none⟩

def withDetail (f : Finding) (key : String) (value : Json) : Finding :=
  { f with details := f.details.insert key value }

def detail? (f : Finding) (key : String) : Option Json := f.details.get? key

def isSkipped (f : Finding) : Bool :=
  match f.detail? "skipped" with
  | some (.bool true) => true
  | _ => false

end Finding

end LightClient
