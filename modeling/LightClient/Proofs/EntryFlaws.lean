import LightClient.Proofs.Causes
import LightClient.Proofs.Sample

/-!
# Why no inclusion is built

The first layer goes through its steps in one order, and the first step that cannot be taken is the
flaw that the failure tells. Flaws are of three kinds: the caller's input is unusable, the backend's
data have a gap, which may be closed later, or the backend supplied something wrong, which may be
fraud. One flaw is told as another kind than it is: a block that declares nothing but blanks
declares no partition, and is taken for one that declares a wrong one.
-/
namespace LightClient.Inclusion

/-- What can be in the way of an inclusion. -/
inductive Flaw where
  /-- The chain has no name. -/
  | chainName
  /-- There is no answer for the entry. -/
  | entry (cause : QueryError)
  /-- The entry has no receipt. -/
  | receipt
  /-- The hash of the entry is zero. -/
  | leaf
  /-- There is no answer for the block of the receipt. -/
  | block (cause : QueryError)
  /-- The block declares no partition, or a blank one. -/
  | undeclared (found : Option String)
  /-- The block declares a partition that is not accepted or no URL. -/
  | partition (found : String)
  /-- The receipt is of another entry. -/
  | start
  deriving DecidableEq

namespace Flaw

/-- The kind of failure that a flaw is. -/
def kind : Flaw → Failure.Kind
  | chainName | leaf => .malformedInput
  | entry cause | block cause => cause.kind
  | receipt | undeclared _ => .missingData
  | partition _ | start => .invariantViolation

/-- Whether the backend just has no data. -/
def isGap : Flaw → Bool
  | entry _ | receipt | block _ | undeclared _ => true
  | _ => false

/-- Whether a block declares nothing but blanks, and at least one. -/
def isSpaced : Flaw → Bool
  | undeclared (some found) => found ≠ ""
  | _ => false

/-- A gap in the data may be closed later, and nothing else may. -/
theorem isGap_iff (flaw : Flaw) : flaw.isGap = true ↔
    flaw.kind = .missingData ∨ flaw.kind = .backendUnavailable := by
  cases flaw with
  | entry cause | block cause => cases cause <;> simp [isGap, kind, QueryError.kind]
  | _ => simp [isGap, kind]

/-- The failure tells the flaw by its kind; only a spaced declaration is called a violation. -/
structure ToldBy (flaw : Flaw) (f : Failure) : Prop where
  kind : flaw.isSpaced = false → f.kind = flaw.kind
  retry : flaw.isSpaced = false → f.isRetryable = flaw.isGap
  spaced : flaw.isSpaced = true → f.kind = .invariantViolation ∧ f.isRetryable = false

theorem toldBy_of_kind {flaw : Flaw} {f : Failure}
    (same : f.kind = if flaw.isSpaced then .invariantViolation else flaw.kind) : flaw.ToldBy f := by
  refine ⟨fun plain => by simpa [plain] using same, fun plain => ?_, fun spaced => ?_⟩
  · rw [plain, if_neg Bool.false_ne_true] at same
    rw [Bool.eq_iff_iff, isGap_iff, Failure.isRetryable, same]
    simp [or_comm]
  · rw [spaced, if_pos rfl] at same
    exact ⟨same, by simp [Failure.isRetryable, same]⟩

end Flaw

variable {backend : Backend} {scope : Url} {chain : String} {index : UInt64} {j j₁ j₂ : Journal}
  {flaw : Flaw} {entry : ChainEntry} {receipt : Receipt}

/-- The entry has a receipt, whose block is looked for next. -/
structure Received (backend : Backend) (scope : Url) (chain : String) (index : UInt64) (j : Journal)
    (entry : ChainEntry) (receipt : Receipt) (j₁ : Journal) : Prop where
  named : Text.isBlankText chain = false
  given : backend.Gives j (.chainEntry scope chain index) entry j₁
  receipt : entry.receipt = some receipt
  nonzero : entry.entryHash ≠ .zero

/-- A step that cannot be taken, after all steps before it. -/
inductive FirstFlaw (backend : Backend) (scope : Url) (chain : String) (index : UInt64)
    (j : Journal) :
    Flaw → Prop
  | chainName (blank : Text.isBlankText chain = true) :
      FirstFlaw backend scope chain index j .chainName
  | entry {cause : QueryError} (named : Text.isBlankText chain = false)
      (missing : backend j (.chainEntry scope chain index) = .error cause) :
      FirstFlaw backend scope chain index j (.entry cause)
  | receipt {entry : ChainEntry} {j₁ : Journal} (named : Text.isBlankText chain = false)
      (given : backend.Gives j (.chainEntry scope chain index) entry j₁)
      (none : entry.receipt = none) : FirstFlaw backend scope chain index j .receipt
  | leaf {entry : ChainEntry} {receipt : Receipt} {j₁ : Journal}
      (named : Text.isBlankText chain = false)
      (given : backend.Gives j (.chainEntry scope chain index) entry j₁)
      (some : entry.receipt = some receipt) (zero : entry.entryHash = .zero) :
      FirstFlaw backend scope chain index j .leaf
  | block {entry : ChainEntry} {receipt : Receipt} {j₁ : Journal} {cause : QueryError}
      (received : Received backend scope chain index j entry receipt j₁)
      (missing : backend j₁ (.block scope receipt.localBlock) = .error cause) :
      FirstFlaw backend scope chain index j (.block cause)
  | undeclared {entry : ChainEntry} {receipt : Receipt} {block : Block} {j₁ j₂ : Journal}
      (received : Received backend scope chain index j entry receipt j₁)
      (given : backend.Gives j₁ (.block scope receipt.localBlock) block j₂)
      (blank : ∀ text, block.sourcePartition = some text → Text.isBlankText text = true) :
      FirstFlaw backend scope chain index j (.undeclared block.sourcePartition)
  | partition {entry : ChainEntry} {receipt : Receipt} {block : Block} {j₁ j₂ : Journal}
      {text : String} (received : Received backend scope chain index j entry receipt j₁)
      (given : backend.Gives j₁ (.block scope receipt.localBlock) block j₂)
      (declared : block.sourcePartition = some text) (visible : Text.isBlankText text = false)
      (foreign : ∀ home, Partition.accepted text = true → Url.parse text ≠ .ok home) :
      FirstFlaw backend scope chain index j (.partition text)
  | start {entry : ChainEntry} {receipt : Receipt} {block : Block} {j₁ j₂ : Journal} {text : String}
      {home : Url} (received : Received backend scope chain index j entry receipt j₁)
      (given : backend.Gives j₁ (.block scope receipt.localBlock) block j₂)
      (declared : block.sourcePartition = some text) (accepted : Partition.accepted text = true)
      (parsed : Url.parse text = .ok home) (other : entry.entryHash ≠ receipt.start) :
      FirstFlaw backend scope chain index j .start

/-- Either some step cannot be taken or an inclusion is built. -/
theorem firstFlaw_or_built (backend : Backend) (scope : Url) (chain : String) (index : UInt64)
    (j : Journal) : (∃ flaw, FirstFlaw backend scope chain index j flaw) ∨
      ∃ p j', Built backend scope chain index j p j' := by
  cases named : Text.isBlankText chain with
  | true => exact .inl ⟨_, .chainName named⟩
  | false =>
  cases asked : backend j (.chainEntry scope chain index) with
  | error cause => exact .inl ⟨_, .entry named asked⟩
  | ok entry =>
  have given : backend.Gives j (.chainEntry scope chain index) entry _ := ⟨asked, rfl⟩
  cases attached : entry.receipt with
  | none => exact .inl ⟨_, .receipt named given attached⟩
  | some receipt =>
  by_cases zero : entry.entryHash = .zero
  · exact .inl ⟨_, .leaf named given attached zero⟩
  have received := Received.mk named given attached zero
  cases asked' : backend _ (.block scope receipt.localBlock) with
  | error cause => exact .inl ⟨_, .block received asked'⟩
  | ok block =>
  have given' : backend.Gives _ (.block scope receipt.localBlock) block _ := ⟨asked', rfl⟩
  by_cases shown : ∃ text, block.sourcePartition = some text ∧ Text.isBlankText text = false
  · obtain ⟨text, declared, visible⟩ := shown
    by_cases known : ∃ home, Partition.accepted text = true ∧ Url.parse text = .ok home
    · obtain ⟨home, accepted, parsed⟩ := known
      by_cases start : entry.entryHash = receipt.start
      · exact .inr
          ⟨⟨scope, chain, index, entry.entryHash, receipt, receipt.anchor, receipt.localBlock,
            home.text⟩, _, named, entry, block, text, home, _, given, attached, zero, start, given',
          declared, accepted, parsed, rfl⟩
      · exact .inl ⟨_, .start received given' declared accepted parsed start⟩
    · exact .inl ⟨_, .partition received given' declared visible fun home accepted parsed =>
        known ⟨home, accepted, parsed⟩⟩
  · refine .inl ⟨_, .undeclared received given' fun text declared => ?_⟩
    cases visible : Text.isBlankText text with
    | true => rfl
    | false => exact absurd ⟨text, declared, visible⟩ shown

theorem Received.fails {f : Failure} {j' : Journal}
    (h : Received backend scope chain index j entry receipt j₁)
    (rest : (settle backend scope chain index entry receipt).Fails j₁ f j') :
    (build backend scope chain index).Fails j f j' :=
  Inquiry.fails_bind.2 <| .inr ⟨(), j, Inquiry.yields_lift.2 ⟨checkChainName_eq_ok.2 h.named, rfl⟩,
    Inquiry.fails_bind.2 <| .inr ⟨entry, j₁, Inquiry.yields_ask.2 h.given,
    Inquiry.fails_bind.2 <| .inr ⟨receipt, j₁,
      Inquiry.yields_lift.2 ⟨entryReceipt_eq_ok.2 ⟨h.receipt, h.nonzero⟩, rfl⟩, rest⟩⟩⟩

/-- A partition that is not resolved is told as the block declares it. -/
theorem resolvePartition_eq_error {height : UInt64} {declared : Option String}
    (foreign : ∀ home, resolvePartition height declared ≠ .ok home) :
    resolvePartition height declared = .error (.partitionResolution height declared) := by
  unfold resolvePartition at foreign ⊢
  cases declared with
  | none => rfl
  | some text =>
    dsimp only at foreign ⊢
    split
    · rename_i fits
      rw [if_pos fits] at foreign
      cases parsed : Url.parse text with
      | ok home =>
        rw [parsed] at foreign
        exact absurd rfl (foreign home)
      | error cause => rfl
    · rfl

theorem Received.unresolved {block : Block}
    (h : Received backend scope chain index j entry receipt j₁)
    (given : backend.Gives j₁ (.block scope receipt.localBlock) block j₂)
    (foreign : ∀ home, resolvePartition receipt.localBlock block.sourcePartition ≠ .ok home) :
    (build backend scope chain index).Fails j
      (.partitionResolution receipt.localBlock block.sourcePartition) j₂ :=
  h.fails <| Inquiry.fails_bind.2 <| .inr ⟨block, j₂, Inquiry.yields_ask.2 given,
    Inquiry.fails_bind.2 <| .inl <| Inquiry.fails_lift.2 ⟨resolvePartition_eq_error foreign, rfl⟩⟩

/-- An entry that is refused is the last thing that is asked for. -/
theorem fails_of_entryReceipt {f : Failure} (named : Text.isBlankText chain = false)
    (given : backend.Gives j (.chainEntry scope chain index) entry j₁)
    (refused : entryReceipt scope chain index entry = .error f) :
    (build backend scope chain index).Fails j f j₁ :=
  Inquiry.fails_bind.2 <| .inr ⟨(), j, Inquiry.yields_lift.2 ⟨checkChainName_eq_ok.2 named, rfl⟩,
    Inquiry.fails_bind.2 <| .inr ⟨entry, j₁, Inquiry.yields_ask.2 given,
    Inquiry.fails_bind.2 <| .inl <| Inquiry.fails_lift.2 ⟨refused, rfl⟩⟩⟩

/-- The first flaw is what the build fails for. -/
theorem FirstFlaw.fails (h : FirstFlaw backend scope chain index j flaw) :
    ∃ f j', (build backend scope chain index).Fails j f j' ∧ flaw.ToldBy f := by
  cases h with
  | chainName blank =>
    refine ⟨.malformed "chain name is empty", j, Inquiry.fails_bind.2 <| .inl <|
      Inquiry.fails_lift.2 ⟨?_, rfl⟩, Flaw.toldBy_of_kind rfl⟩
    simp [checkChainName, blank]
  | entry named missing =>
    exact ⟨_, _, Inquiry.fails_bind.2 <| .inr ⟨(), j,
      Inquiry.yields_lift.2 ⟨checkChainName_eq_ok.2 named, rfl⟩, Inquiry.fails_bind.2 <| .inl <|
      Inquiry.fails_ask.2 ⟨_, missing, rfl, rfl⟩⟩, Flaw.toldBy_of_kind rfl⟩
  | @receipt entry j₁ named given none =>
    have refused : entryReceipt scope chain index entry =
        .error (.missingReceipt scope.text chain index) := by simp [entryReceipt, none]
    exact ⟨_, _, fails_of_entryReceipt named given refused, Flaw.toldBy_of_kind rfl⟩
  | @leaf entry receipt j₁ named given some zero =>
    have refused : entryReceipt scope chain index entry =
        .error (.emptyLeaf scope.text chain index) := by
      simp [entryReceipt, some, zero, Hash.isZero]
    exact ⟨_, _, fails_of_entryReceipt named given refused, Flaw.toldBy_of_kind rfl⟩
  | block received missing =>
    exact ⟨_, _, received.fails <| Inquiry.fails_bind.2 <| .inl <|
      Inquiry.fails_ask.2 ⟨_, missing, rfl, rfl⟩, Flaw.toldBy_of_kind rfl⟩
  | @undeclared entry receipt block j₁ j₂ received given blank =>
    refine ⟨_, _, received.unresolved given fun home resolved => ?_, Flaw.toldBy_of_kind ?_⟩
    · obtain ⟨text, declared, accepted, -⟩ := resolvePartition_eq_ok.1 resolved
      cases (Partition.not_blank_of_accepted accepted).symm.trans (blank text declared)
    · cases block.sourcePartition with
      | none => rfl
      | some found =>
        by_cases empty : found = "" <;> simp [Failure.kind, Flaw.isSpaced, Flaw.kind, empty]
  | @partition entry receipt block j₁ j₂ text received given declared visible foreign =>
    refine ⟨_, _, received.unresolved given fun home resolved => ?_, Flaw.toldBy_of_kind ?_⟩
    · obtain ⟨text', declared', accepted, parsed⟩ := resolvePartition_eq_ok.1 resolved
      cases declared.symm.trans declared'
      exact foreign home accepted parsed
    · have nonempty : text ≠ "" := by
        rintro rfl
        exact absurd visible (by decide)
      simp [declared, Failure.kind, Flaw.isSpaced, Flaw.kind, nonempty]
  | @start entry receipt block j₁ j₂ text home received given declared accepted parsed other =>
    have resolved : resolvePartition receipt.localBlock block.sourcePartition = .ok home :=
      resolvePartition_eq_ok.2 ⟨text, declared, accepted, parsed⟩
    exact ⟨.violation (.leafMismatch entry.entryHash receipt.start), j₂, received.fails <|
      Inquiry.fails_bind.2 <| .inr ⟨block, j₂, Inquiry.yields_ask.2 given, Inquiry.fails_bind.2 <|
      .inr ⟨home, j₂, Inquiry.yields_lift.2 ⟨resolved, rfl⟩,
      Inquiry.fails_bind.2 <| .inl <| Inquiry.fails_lift.2 ⟨if_pos other, rfl⟩⟩⟩,
      Flaw.toldBy_of_kind rfl⟩

/-- What a result of the build says about the first flaw. -/
structure Classified (backend : Backend) (scope : Url) (chain : String)
    (index : UInt64) (j : Journal) (result : Except Failure Inclusion) : Prop where
  /-- The first flaw is the result, told by its kind. -/
  flawed : ∀ flaw, FirstFlaw backend scope chain index j flaw →
    ∃ f, result = .error f ∧ flaw.ToldBy f
  /-- There is no failure without a flaw, -/
  failed : ∀ f, result = .error f →
    ∃ flaw, FirstFlaw backend scope chain index j flaw ∧ flaw.ToldBy f
  /-- and without one an inclusion is built. -/
  sound : (∀ flaw, ¬ FirstFlaw backend scope chain index j flaw) → ∃ p, result = .ok p

/-- Whatever a backend answers, what keeps an inclusion from being built is told by the kind of the
first flaw, except for a declaration of blanks. -/
theorem build_classified (backend : Backend) (scope : Url) (chain : String) (index : UInt64)
    (j : Journal) :
    Classified backend scope chain index j ((build backend scope chain index).run j).1 := by
  have flawed (flaw : Flaw) (h : FirstFlaw backend scope chain index j flaw) :
      ∃ f, ((build backend scope chain index).run j).1 = .error f ∧ flaw.ToldBy f := by
    obtain ⟨f, j', failed, told⟩ := h.fails
    exact ⟨f, congrArg Prod.fst failed, told⟩
  rcases firstFlaw_or_built backend scope chain index j with ⟨flaw, first⟩ | ⟨p, j', built⟩
  · obtain ⟨f, failed, told⟩ := flawed flaw first
    refine ⟨flawed, fun f' failed' => ⟨flaw, first, ?_⟩, fun none => absurd first (none flaw)⟩
    cases failed.symm.trans failed'
    exact told
  · have yields : ((build backend scope chain index).run j).1 = .ok p :=
      congrArg Prod.fst (build_yields.2 built)
    exact ⟨flawed, fun f failed => (nomatch yields.symm.trans failed), fun _ => ⟨p, yields⟩⟩

namespace Sample
open Session.Sample (root)

/-- A network with one entry in a block that declares the text as its partition. -/
def network (declared : Option String) : Backend :=
  .fixed fun
    | .chainEntry .. => .ok ⟨root, some ⟨root, root, 1, []⟩⟩
    | .block .. => .ok { Session.Sample.block with sourcePartition := declared }
    | _ => .error (.notFound "no such record")

/-- A block that declares a blank is one without a partition, which may be told later; the failure
is a violation and not worth another try. -/
theorem blank_partition_unretried :
    FirstFlaw (network (some " ")) .directory "main" 0 [] (.undeclared (some " ")) ∧
      (Flaw.undeclared (some " ")).kind = .missingData ∧
      ∃ f, ((build (network (some " ")) .directory "main" 0).run []).1 = .error f ∧
        f.kind = .invariantViolation ∧ f.isRetryable = false := by
  have received : Received (network (some " ")) .directory "main" 0 []
      ⟨root, some ⟨root, root, 1, []⟩⟩ ⟨root, root, 1, []⟩ _ :=
    ⟨by decide, ⟨rfl, rfl⟩, rfl, by decide⟩
  have first : FirstFlaw (network (some " ")) .directory "main" 0 [] (.undeclared (some " ")) := by
    refine .undeclared received ⟨rfl, rfl⟩ fun text declared => ?_
    cases declared
    decide
  obtain ⟨f, j', failed, told⟩ := first.fails
  exact ⟨first, rfl, f, congrArg Prod.fst failed, told.spaced (by decide)⟩

end Sample

end LightClient.Inclusion
