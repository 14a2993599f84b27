import LightClient.Proofs.Endings
import LightClient.Proofs.Soundness
import LightClient.Proofs.Storage

/-!
# What stands behind a verified report

A report may come out of a verification, or it may be loaded from a text and put where verified
reports are kept. A verification never gives a report more trust than its layers have earned,
whatever its cache holds for the layers. A stored report is loaded with the level of trust that it
states, and from this level alone it follows whether it is verified: neither a stored flag nor the
layers are consulted. So reports are backed by their layers where none is loaded, and else as long
as no text states more than its layers show.
-/
namespace LightClient

namespace Report

/-- A report has a finding of the layer, and all that it has under the layer's name are valid. -/
def Shows (r : Report) (layer : Layer) : Prop :=
  (∃ f ∈ r.findings, f.layer = layer.name) ∧
    ∀ f ∈ r.findings, f.layer = layer.name → f.valid = true

/-- A report claims no more than its layers. -/
def Backed (r : Report) : Prop :=
  r.verified = true → r.trustLevel = .full ∧ ∀ layer ∈ Layer.all, r.Shows layer

theorem not_backed_iff {r : Report} :
    ¬ r.Backed ↔ r.trustLevel = .full ∧ ∃ layer ∈ Layer.all, ¬ r.Shows layer := by
  have verified : r.verified = true ↔ r.trustLevel = .full := decide_eq_true_iff
  unfold Backed
  rw [verified]
  by_cases full : r.trustLevel = .full <;> simp [full]

end Report

/-! ## Reports of verifications -/

/-- A layer that hands on what it was asked for has passed. -/
theorem Commit.passes_of_fetchedFinding {partition : Url} {block : Block}
    {fetched : Except Failure (List Validator × Commit)} {f : Finality}
    (found : (fetchedFinding partition block fetched).2 = some f) :
    Layer.blockSignatures.Passes (fetchedFinding partition block fetched).1 := by
  cases fetched with
  | error cause => cases found
  | ok data =>
    obtain ⟨validators, commit⟩ := data
    cases checked : check block commit validators with
    | ok result => exact (fetchedFinding_of_ok checked).1
    | error cause =>
      rw [(fetchedFinding_of_error checked).2] at found
      cases found

theorem Anchoring.passes_of_stateFinding {partition : Url} {height : UInt64}
    {asked : Except Failure Block} {block : Block}
    (found : (stateFinding partition height asked).2 = some block) :
    Layer.stateCommitment.Passes (stateFinding partition height asked).1 := by
  cases asked with
  | ok other => exact stateFinding_passes partition height other
  | error f => cases found

theorem Anchoring.passes_of_anchorFinding {a : Anchoring} {source : Url} {root : Hash}
    {sought : Except Failure AnchoredRoot} {anchored : AnchoredRoot}
    (found : (a.anchorFinding source root sought).2 = some anchored) :
    Layer.partitionAnchor.Passes (a.anchorFinding source root sought).1 := by
  cases sought with
  | ok other => exact a.anchorFinding_passes source root other
  | error f => cases found

namespace Cache

/-- What the reports in a cache satisfy. -/
def Reports (K : Report → Prop) : (t : Table) → String → t.Value → Prop
  | .reports, _, r => K r
  | .receipts, _, _ | .inclusions, _, _ | .finalities, _, _ | .traces, _, _ => True

theorem holds_reports {K : Report → Prop} {c : Cache} : c.Holds (Reports K) ↔
    ∀ key (e : Entry .reports), ⟨.reports, key, e⟩ ∈ c.bindings → K e.value := by
  constructor
  · exact fun h key e member => h _ member
  · rintro h ⟨t, key, e⟩ member
    cases t with
    | reports => exact h key e member
    | _ => trivial

end Cache

namespace Verifier

/-- Whatever the state, the step comes to a result that satisfies `P`. It stores no report. -/
def Ensures {α : Type} (P : α → Prop) (m : StateM State α) : Prop :=
  ∀ s, P (m s).1 ∧ ∀ K, s.cache.Holds (Cache.Reports K) → (m s).2.cache.Holds (Cache.Reports K)

namespace Ensures
variable {α β : Type} {P : α → Prop} {Q : β → Prop} {now : UInt64} {t : Cache.Table} {key : String}

theorem pure {a : α} (h : P a) : Ensures P (pure a) := fun _ => ⟨h, fun _ kept => kept⟩

theorem asking {u : StateM Journal α} (h : ∀ j, P (u j).1) : Ensures P (asking u) := fun s =>
  ⟨h s.journal, fun _ kept => kept⟩

/-- Nothing is known of what a backend answers. -/
theorem asked (u : StateM Journal α) : Ensures (fun _ => True) (Verifier.asking u) :=
  asking fun _ => trivial

theorem bind {m : StateM State α} {f : α → StateM State β} (first : Ensures P m)
    (next : ∀ a, P a → Ensures Q (f a)) : Ensures Q (m >>= f) := fun s => by
  obtain ⟨holds, keeps⟩ := first s
  obtain ⟨holds', keeps'⟩ := next (m s).1 holds (m s).2
  exact ⟨holds', fun K kept => keeps' K (keeps K kept)⟩

/-- Nothing is known of what is found. -/
theorem lookup_bind {f : Option t.Value → StateM State β} (next : ∀ found, Ensures Q (f found)) :
    Ensures Q (lookup now t key >>= f) := fun s => by
  obtain ⟨holds, keeps⟩ := next (lookup now t key s).1 (lookup now t key s).2
  exact ⟨holds, fun K kept => keeps K kept.get⟩

theorem remember_bind {value : t.Value} {m : StateM State β} (other : t ≠ .reports)
    (next : Ensures Q m) : Ensures Q (remember now t key value >>= fun _ => m) := fun s => by
  obtain ⟨holds, keeps⟩ := next (remember now t key value s).2
  refine ⟨holds, fun K kept => keeps K (kept.store ?_)⟩
  cases t with
  | reports => exact absurd rfl other
  | _ => trivial

theorem rememberInclusion_bind {p : Inclusion} {m : StateM State β} (next : Ensures Q m) :
    Ensures Q (rememberInclusion now p >>= fun _ => m) := by
  have inclusion : Ensures Q (remember now .inclusions (positionKey p.scope p.chain p.index) p
      >>= fun _ => m) := .remember_bind (by decide) next
  have receipt : Ensures Q (remember now .receipts (positionKey p.scope p.chain p.index) p.receipt
      >>= fun _ => remember now .inclusions (positionKey p.scope p.chain p.index) p
      >>= fun _ => m) := .remember_bind (by decide) inclusion
  exact receipt

end Ensures

section
variable {v : Verifier} {backend : Backend} {now : UInt64}

theorem fetchSignatures_ensures (partition : Url) (block : Block) :
    Ensures (fun result => ∀ f, result.2 = some f → Layer.blockSignatures.Passes result.1)
      (fetchSignatures backend now partition block) := by
  have fetched : Ensures
      (fun result => ∀ f, result.2 = some f → Layer.blockSignatures.Passes result.1)
      (asking (Commit.verifyFetched backend partition block)) :=
    .asking fun _ _ found => Commit.passes_of_fetchedFinding found
  refine fetched.bind fun result passes => ?_
  obtain ⟨finding, finality?⟩ := result
  cases finality? with
  | none => exact .pure fun f found => nomatch found
  | some finality => exact .remember_bind (by decide) (.pure fun _ _ => passes finality rfl)

/-- The signature layer has a record only with a finding that passes, also for a record that was
kept. -/
theorem verifySignatures_ensures (partition : Url) (block : Block) :
    Ensures (fun result => ∀ f, result.2 = some f → Layer.blockSignatures.Passes result.1)
      (verifySignatures backend now partition block) := by
  unfold verifySignatures
  cases HeaderTree.checkAppHash block with
  | error f => exact .pure fun f found => nomatch found
  | ok _ =>
    refine .lookup_bind fun found => ?_
    cases found with
    | none => exact fetchSignatures_ensures partition block
    | some finality =>
      dsimp only
      split
      · exact .pure fun _ _ => rememberedFinality_passes partition block finality
      · exact fetchSignatures_ensures partition block

theorem verifyGenesis_ensures (finality : Finality) :
    Ensures (fun result => ∀ x, result = .ok x → x.valid = true → Layer.genesisTrust.Passes x)
      (v.verifyGenesis backend now finality) := by
  unfold verifyGenesis
  refine .lookup_bind fun found => ?_
  cases found with
  | some trace =>
    refine .pure fun x same _ => ?_
    obtain rfl := Except.ok.inj same
    simpa using finding_passes trace
  | none =>
    refine (Ensures.asked _).bind fun result _ => ?_
    cases result with
    | ok trace =>
      refine .remember_bind (by decide) (.pure fun x same _ => ?_)
      obtain rfl := Except.ok.inj same
      exact finding_passes trace
    | error f =>
      dsimp only
      split
      · exact .pure fun x same => nomatch same
      · refine .pure fun x same valid => ?_
        obtain rfl := Except.ok.inj same
        cases valid

/-- A run is traced to genesis only if all layers have passed. -/
def Earned (result : Except Failure Outcome) : Prop :=
  ∀ o, result = .ok o → o.traced = true → o.Completes

theorem Earned.untraced {o : Outcome} (h : o.traced = false) : Earned (.ok o) := by
  intro _ same traced
  obtain rfl := Except.ok.inj same
  rw [h] at traced
  cases traced

theorem runSigned_ensures {o : Outcome} (partition : Url) (block : Block)
    (includes : o.Includes Layer.blockSignatures.before) :
    Ensures Earned (v.runSigned backend now o partition block) := by
  refine (verifySignatures_ensures partition block).bind fun result passes => ?_
  obtain ⟨x, finality?⟩ := result
  cases finality? with
  | none => exact .pure (.untraced includes.traced)
  | some finality =>
    refine (verifyGenesis_ensures finality).bind fun result holds => ?_
    cases result with
    | error f => exact .pure fun o same => nomatch same
    | ok y =>
      refine .pure fun _ same traced => ?_
      obtain rfl := Except.ok.inj same
      have signed := passes finality rfl
      have rooted := holds y rfl traced
      have recorded : List.Forall₂ Layer.Passes Layer.genesisTrust.before (o.recorded ++ [x]) :=
        List.rel_append includes.recorded (.cons signed .nil)
      refine ⟨?_, List.rel_append recorded (.cons rooted .nil), includes.skipped⟩
      exact ⟨includes.included, rfl, rfl, traced, fun _ => includes.inclusion, rfl⟩

theorem runAnchored_ensures {o : Outcome} (home : Url) (root : Hash) (block : Block)
    (includes : o.Includes Layer.partitionAnchor.before) :
    Ensures Earned (v.runAnchored backend now o home root block) := by
  unfold runAnchored
  split
  · have sought : Ensures (fun result => ∀ anchored, result.2 = some anchored →
        Layer.partitionAnchor.Passes result.1)
        (asking (v.anchoring.verifyAnchor backend home root)) :=
      .asking fun _ _ found => Anchoring.passes_of_anchorFinding found
    refine sought.bind fun result passes => ?_
    obtain ⟨x, anchored?⟩ := result
    cases anchored? with
    | none => exact .pure (.untraced includes.traced)
    | some anchored => exact runSigned_ensures _ _ (includes.record (passes anchored rfl))
  · exact runSigned_ensures _ _ (includes.record (anchorNotRequired_passes home))

theorem runCommitted_ensures {o : Outcome} (p : Inclusion)
    (includes : o.Includes Layer.stateCommitment.before) :
    Ensures Earned (v.runCommitted backend now o p) := by
  unfold runCommitted
  cases Url.parse p.sourcePartition with
  | error e => exact .pure (.untraced includes.traced)
  | ok home =>
    have committed : Ensures (fun result => ∀ block, result.2 = some block →
        Layer.stateCommitment.Passes result.1)
        (asking (Anchoring.verifyState backend home p.anchor p.localBlock)) :=
      .asking fun _ _ found => Anchoring.passes_of_stateFinding found
    refine committed.bind fun result passes => ?_
    obtain ⟨x, block?⟩ := result
    cases block? with
    | none => exact .pure (.untraced includes.traced)
    | some block =>
      exact runAnchored_ensures home p.anchor block (includes.record (passes block rfl))

theorem findInclusion_ensures (account : Url) :
    Ensures (fun _ => True) (v.findInclusion backend now account) := by
  have located : Ensures (fun _ => True) (v.locateInclusion backend now account) := by
    refine (Ensures.asked _).bind fun result _ => ?_
    cases result with
    | error f => exact .pure trivial
    | ok index =>
      refine .lookup_bind fun found => ?_
      cases found with
      | some p => exact .pure trivial
      | none => exact (Ensures.asked _).bind fun _ _ => .pure trivial
  exact located.bind fun _ _ => .pure trivial

/-- Whatever is kept of inclusions, signatures and walks, no run is traced without all five
layers. -/
theorem runLayers_ensures (account : Url) : Ensures Earned (v.runLayers backend now account) := by
  refine (findInclusion_ensures account).bind fun result _ => ?_
  cases result with
  | error f =>
    dsimp only
    split
    · exact .pure fun o same => nomatch same
    · exact .pure (.untraced rfl)
  | ok p =>
    dsimp only
    split
    · rename_i valid
      have passes := Inclusion.finding_passes
        (Inclusion.check_eq_ok.2 (Inclusion.finding_valid.1 valid))
      refine .rememberInclusion_bind (runCommitted_ensures p ?_)
      exact ⟨.cons passes .nil, rfl, valid, rfl, rfl, rfl, rfl, rfl⟩
    · exact .pure (.untraced rfl)

/-- A run in which all layers hold shows each of them. -/
theorem Outcome.Completes.shows {o : Outcome} (h : o.Completes) (account : Url) {layer : Layer}
    (member : layer ∈ Layer.all) : (report now account o).Shows layer := by
  have findings : (report now account o).findings = o.recorded := by
    rw [report, h.skipped, List.append_nil]
  rw [Report.Shows, findings]
  constructor
  · have named := List.mem_map_of_mem member (f := Layer.name)
    rw [← Layer.map_layer_of_passes h.recorded] at named
    exact List.mem_map.1 named
  · intro x hx _
    obtain ⟨other, passes⟩ := Layer.passes_of_mem h.recorded x hx
    exact passes.valid

theorem report_backed {o : Outcome} (earned : Earned (.ok o)) (account : Url) :
    (report now account o).Backed := by
  intro verified
  have traced := (verified_report.1 verified).2.2.2
  exact ⟨decide_eq_true_iff.1 verified, fun layer member =>
    (earned o rfl traced).shows account member⟩

/-- What a verification comes to where `K` holds of all reports that are kept: one of them, or one
that its layers have earned. Nothing else is kept afterwards but these and the one that is
returned. -/
inductive Serves (K : Report → Prop) : Except Failure Report → State → Prop
  | fails {f : Failure} {s' : State} (kept : s'.cache.Holds (Cache.Reports K)) :
      Serves K (.error f) s'
  | returns {r : Report} {s' : State} (source : K r ∨ r.Backed)
      (kept : K r → s'.cache.Holds (Cache.Reports K)) : Serves K (.ok r) s'

theorem verifyAccount_serves {K : Report → Prop} (account : String) {s : State}
    (kept : s.cache.Holds (Cache.Reports K)) :
    Serves K (v.verifyAccount backend now account s).1
      (v.verifyAccount backend now account s).2 := by
  unfold verifyAccount unlessReported
  cases Url.parse account with
  | error e => exact .fails kept
  | ok u =>
    dsimp only
    rw [lookup_bind_apply]
    cases found : s.cache.peek? .reports u.text now with
    | some r =>
      have own : K r := kept.of_peek? found
      exact .returns (.inl own) fun _ => kept.get
    | none =>
      dsimp only
      rw [State.bind_apply]
      have ran : Earned (v.runLayers backend now u ⟨_, s.journal⟩).1 ∧ _ := runLayers_ensures u
        ⟨(s.cache.get .reports u.text now).2, s.journal⟩
      obtain ⟨earned, keeps⟩ := ran
      have kept' := keeps K kept.get
      generalize v.runLayers backend now u ⟨_, s.journal⟩ = result at earned kept' ⊢
      obtain ⟨result, s'⟩ := result
      cases result with
      | error f => exact .fails kept'
      | ok o =>
        have backed : (report now u o).Backed := report_backed earned u
        dsimp only
        split
        · exact .returns (.inr backed) fun own => Cache.Holds.store kept' own
        · exact .returns (.inr backed) fun _ => kept'

end

end Verifier

/-! ## Reports from texts -/

namespace Storage
open Json

/-- What a value binds the field to, as a record with these fields. -/
def field? (names : List String) (value : Json) (name : String) : Option Json :=
  (Record.read? names value).bind fun r => r.fields.lookup name

/-- The fields of a report that are read. -/
def reportNames : List String :=
  ["account", "trust_level", "layers", "inclusion", "consensus", "timing"]

/-- The fields of a finding. -/
def findingNames : List String := ["layer_name", "valid", "details", "error_message", "error_kind"]

/-- Among the values there is one for the layer, and each one for the layer tells that it is
valid. -/
def Lists (items : List Json) (layer : Layer) : Prop :=
  (∃ item ∈ items, field? findingNames item "layer_name" = some (.string layer.name)) ∧
    ∀ item ∈ items, field? findingNames item "layer_name" = some (.string layer.name) →
      field? findingNames item "valid" = some (.bool true)

/-- The text states full trust as the level of a report. -/
def StatesFull (text : String) : Prop :=
  ∃ value level, parse? text = some value ∧
    field? reportNames value "trust_level" = some level ∧ caseName? level = some "full"

/-- The texts are objects that agree in all fields of a report that are read. They may differ in
other members, and so in the flag that is stored with a report. -/
def SameReport (text other : String) : Prop :=
  ∃ members members', parse? text = some (.object members) ∧
    parse? other = some (.object members') ∧
    members.filter (reportNames.contains ·.1) = members'.filter (reportNames.contains ·.1)

/-- The text is well-formed as a report and states full trust, but it does not list all layers as
valid. -/
def Overclaims (text : String) : Prop :=
  ∃ value level items, parse? text = some value ∧ (decode? value : Option Report).isSome ∧
    field? reportNames value "trust_level" = some level ∧ caseName? level = some "full" ∧
    field? reportNames value "layers" = some (.array items) ∧
    ∃ layer ∈ Layer.all, ¬ Lists items layer

theorem decode?_string_eq_some {value : Json} {text : String} :
    decode? value = some text ↔ value = .string text := by
  cases value <;> simp [decode?]

theorem decode?_bool_eq_some {value : Json} {b : Bool} :
    decode? value = some b ↔ value = .bool b := by
  cases value <;> simp [decode?]

theorem decode?_eq_full {level : Json} : decode? level = some TrustLevel.full ↔
    caseName? level = some "full" := by
  have found (name : String) : TrustLevel.all.find? (fun c => c.name = name) = some .full ↔
      name = "full" := by
    simp only [TrustLevel.all, List.find?_cons, TrustLevel.name]
    grind
  simp only [decode?, decodeCase?, Option.bind_eq_some_iff, found]
  constructor
  · rintro ⟨_, named, rfl⟩
    exact named
  · exact fun named => ⟨_, named, rfl⟩

/-- The fields of a finding that was read. -/
theorem fields_of_decodeFinding? {outer : Nat} {item : Json} {f : Finding}
    (h : decodeFinding? outer item = some f) :
    field? findingNames item "layer_name" = some (.string f.layer) ∧
      field? findingNames item "valid" = some (.bool f.valid) := by
  simp only [decodeFinding?, Option.bind_eq_bind, Option.bind_eq_some_iff, Option.pure_def,
    Option.some.injEq] at h
  obtain ⟨r, record, layer, named, valid, told, details, -, message, -, kind, -, rfl⟩ := h
  obtain ⟨name, bound, same⟩ := Option.bind_eq_some_iff.1 named
  obtain ⟨flag, bound', same'⟩ := Option.bind_eq_some_iff.1 told
  obtain rfl := decode?_string_eq_some.1 same
  obtain rfl := decode?_bool_eq_some.1 same'
  exact ⟨Option.bind_eq_some_iff.2 ⟨r, record, bound⟩,
    Option.bind_eq_some_iff.2 ⟨r, record, bound'⟩⟩

/-- The fields of a report that was read. -/
theorem fields_of_decodeReport? {value : Json} {p : Report} (h : decode? value = some p) :
    ∃ level items, field? reportNames value "trust_level" = some level ∧
      decode? level = some p.trustLevel ∧ field? reportNames value "layers" = some (.array items) ∧
      items.mapM (decodeFinding? 2) = some p.findings := by
  simp only [decode?, Option.bind_eq_bind, Option.bind_eq_some_iff, Option.pure_def,
    Option.some.injEq] at h
  obtain ⟨r, record, account, -, level, leveled, findings, ⟨layers, bound, read⟩, inclusion, -,
    finality, -, timing, -, rfl⟩ := h
  obtain ⟨stated, bound', named⟩ := Option.bind_eq_some_iff.1 leveled
  cases layers with
  | array items =>
    exact ⟨stated, items, Option.bind_eq_some_iff.2 ⟨r, record, bound'⟩, named,
      Option.bind_eq_some_iff.2 ⟨r, record, bound⟩, read⟩
  | _ => cases read

theorem lists_iff {items : List Json} {r : Report}
    (read : items.mapM (decodeFinding? 2) = some r.findings)
    (layer : Layer) : Lists items layer ↔ r.Shows layer := by
  have back := List.exists_mem_of_mapM read
  have forth := List.forall_mem_of_mapM read
  constructor
  · rintro ⟨⟨item, member, named⟩, valid⟩
    constructor
    · obtain ⟨f, kept, one⟩ := forth item member
      refine ⟨f, kept, ?_⟩
      have own := (fields_of_decodeFinding? one).1.symm.trans named
      exact Json.string.inj (Option.some.inj own)
    · intro f kept same
      obtain ⟨item, member, one⟩ := back f kept
      obtain ⟨named, told⟩ := fields_of_decodeFinding? one
      have own := told.symm.trans (valid item member (same ▸ named))
      exact Json.bool.inj (Option.some.inj own)
  · rintro ⟨⟨f, kept, same⟩, valid⟩
    constructor
    · obtain ⟨item, member, one⟩ := back f kept
      exact ⟨item, member, same ▸ (fields_of_decodeFinding? one).1⟩
    · intro item member named
      obtain ⟨f, kept, one⟩ := forth item member
      obtain ⟨own, told⟩ := fields_of_decodeFinding? one
      have same := Json.string.inj (Option.some.inj (own.symm.trans named))
      exact valid f kept same ▸ told

/-- What is loaded is verified by the level that the text states. -/
theorem verified_iff_statesFull {text : String} {r : Report} (loads : read? text = some r) :
    r.verified = true ↔ StatesFull text := by
  obtain ⟨value, parsed, decoded⟩ := Option.bind_eq_some_iff.1 loads
  obtain ⟨level, items, stated, named, -, -⟩ := fields_of_decodeReport? decoded
  constructor
  · intro verified
    have full : r.trustLevel = .full := of_decide_eq_true verified
    exact ⟨value, level, parsed, stated, decode?_eq_full.1 (full ▸ named)⟩
  · rintro ⟨value', level', parsed', stated', full⟩
    obtain rfl := Option.some.inj (parsed.symm.trans parsed')
    obtain rfl := Option.some.inj (stated.symm.trans stated')
    exact decide_eq_true (Option.some.inj (named.symm.trans (decode?_eq_full.2 full)))

/-- Members that are not read have no influence. -/
theorem read?_of_sameReport {text other : String} (same : SameReport text other) :
    (read? text : Option Report) = read? other := by
  obtain ⟨members, members', parsed, parsed', same⟩ := same
  have record : Record.read? reportNames (.object members)
      = Record.read? reportNames (.object members') := by simp only [Record.read?, same]
  have decoded : (decode? (.object members) : Option Report) = decode? (.object members') :=
    congrArg (Option.bind · _) record
  rw [read?, read?, parsed, parsed']
  exact decoded

/-- A text is loaded as a report that claims more than its layers exactly if the text overclaims. -/
theorem overclaims_iff {text : String} :
    Overclaims text ↔ ∃ r : Report, read? text = some r ∧ ¬ r.Backed := by
  constructor
  · rintro ⟨value, level, items, parsed, loads, stated, full, listed, layer, member, missing⟩
    obtain ⟨r, decoded⟩ := Option.isSome_iff_exists.1 loads
    obtain ⟨level', items', stated', named, listed', read⟩ := fields_of_decodeReport? decoded
    obtain rfl := Option.some.inj (stated.symm.trans stated')
    obtain rfl := Json.array.inj (Option.some.inj (listed.symm.trans listed'))
    refine ⟨r, Option.bind_eq_some_iff.2 ⟨value, parsed, decoded⟩, Report.not_backed_iff.2 ⟨?_, ?_⟩⟩
    · exact Option.some.inj (named.symm.trans (decode?_eq_full.2 full))
    · exact ⟨layer, member, fun shows => missing ((lists_iff read layer).2 shows)⟩
  · rintro ⟨r, loads, unbacked⟩
    obtain ⟨value, parsed, decoded⟩ := Option.bind_eq_some_iff.1 loads
    obtain ⟨level, items, stated, named, listed, read⟩ := fields_of_decodeReport? decoded
    obtain ⟨full, layer, member, missing⟩ := Report.not_backed_iff.1 unbacked
    refine ⟨value, level, items, parsed, Option.isSome_iff_exists.2 ⟨r, decoded⟩, stated,
      decode?_eq_full.1 (full ▸ named), listed, layer, member, ?_⟩
    exact fun lists => missing ((lists_iff read layer).1 lists)

end Storage

/-! ## All reports -/

/-- How a report comes about where the given texts may be loaded: it is loaded from one of them, or
a verification returns it whose cache keeps only reports that have come about. -/
inductive Report.Arises (texts : String → Prop) : Report → Prop
  | loaded {text : String} {r : Report} (given : texts text) (loads : Storage.read? text = some r) :
      Arises texts r
  | returned {caller : Caller} {now : UInt64} {account : String}
      {state : Verifier.State} {r : Report}
      (kept : ∀ key (e : Cache.Entry .reports), ⟨.reports, key, e⟩ ∈ state.cache.bindings →
        Arises texts e.value)
      (returns : (caller.verifier.verifyAccount caller.backend now account state).1 = .ok r) :
      Arises texts r

/-- What verifications keep has come about. -/
theorem Session.step_arises {κ : Type} {callers : κ → Caller} {texts : String → Prop} (s : Session)
    (caller : κ) (account : String)
    (kept : s.state.cache.Holds (Cache.Reports (Report.Arises texts))) :
    (s.verify (callers caller) account).2.state.cache.Holds
      (Cache.Reports (Report.Arises texts)) := by
  have serves : Verifier.Serves (Report.Arises texts) (s.verify (callers caller) account).1
      (s.verify (callers caller) account).2.state := Verifier.verifyAccount_serves account kept
  generalize returned : (s.verify (callers caller) account).1 = result at serves
  cases serves with
  | fails kept' => exact kept'
  | returns _ kept' => exact kept' (.returned (Cache.holds_reports.1 kept) returned)

theorem Session.run_arises {κ : Type} (callers : κ → Caller) (settings : CacheConfig) (now : UInt64)
    (actions : List (Action κ)) (texts : String → Prop) :
    ((start settings now).run callers actions).state.cache.Holds
      (Cache.Reports (Report.Arises texts)) :=
  run_keeps (fun s => s.cache.Holds (Cache.Reports (Report.Arises texts))) step_arises
    (fun _ _ fewer h => h.of_subset fewer) (Cache.holds_empty settings) actions

theorem Report.backed_of_arises {texts : String → Prop}
    (honest : ∀ text, texts text → ¬ Storage.Overclaims text) {r : Report} (h : Arises texts r) :
    r.Backed := by
  induction h with
  | @loaded text r given loads =>
    by_contra unbacked
    exact honest text given (Storage.overclaims_iff.2 ⟨r, loads, unbacked⟩)
  | @returned caller now account state r kept returns backed =>
    have serves : Verifier.Serves Backed
        (caller.verifier.verifyAccount caller.backend now account state).1 _ :=
      Verifier.verifyAccount_serves account (Cache.holds_reports.2 backed)
    rw [returns] at serves
    cases serves with
    | returns source _ => exact source.elim id id

/-- A report that is loaded is verified exactly if its text states full trust, and members that are
not read, the stored flag among them, have no influence. Whatever texts may be loaded, all reports
that come about are backed by their layers exactly if none of the texts overclaims. Whoever uses a
cache into which nothing is loaded only gets such reports. -/
theorem Report.backed_unless_loaded (texts : String → Prop) :
    (∀ (text : String) (r : Report), Storage.read? text = some r →
        (r.verified = true ↔ Storage.StatesFull text)) ∧
      (∀ text other, Storage.SameReport text other →
        (Storage.read? text : Option Report) = Storage.read? other) ∧
      ((∀ r, Arises texts r → r.Backed) ↔ ∀ text, texts text → ¬ Storage.Overclaims text) ∧
      ∀ (κ : Type) (callers : κ → Caller) (settings : CacheConfig) (now : UInt64)
        (actions : List (Action κ)) (caller : Caller) (account : String) (r : Report),
        (((Session.start settings now).run callers actions).verify caller account).1 = .ok r →
          r.Backed := by
  refine ⟨fun _ _ => Storage.verified_iff_statesFull, fun _ _ => Storage.read?_of_sameReport,
    ⟨fun backed text given overclaims => ?_, fun honest r => backed_of_arises honest⟩, ?_⟩
  · obtain ⟨r, loads, unbacked⟩ := Storage.overclaims_iff.1 overclaims
    exact unbacked (backed r (.loaded given loads))
  · intro κ callers settings now actions caller account r returned
    have kept := Session.run_arises callers settings now actions fun _ => False
    have nothing (text : String) (given : False) : ¬ Storage.Overclaims text := given.elim
    exact backed_of_arises nothing (.returned (Cache.holds_reports.1 kept) returned)

/-- A second caller of the sample gets the report that the first one has left. It is verified, and
its five layers stand behind it. -/
theorem Session.Sample.kept_report_backed : ∃ r,
    (((start .default 0).run callers [.verify false "acc://alice"]).verify (callers true)
      "acc://alice").1 = .ok r ∧ r.verified = true ∧ r.trustLevel = .full ∧
    ∀ layer ∈ Layer.all, r.Shows layer := by
  obtain ⟨r, kept, verified, -⟩ := report_kept
  obtain ⟨u, parsed, text⟩ : ∃ u, Url.parse "acc://alice" = .ok u ∧ u.text = "acc://alice" :=
    parse_alice rfl
  rw [← text] at kept
  have returned : (((start .default 0).run callers [.verify false "acc://alice"]).verify
      (callers true) "acc://alice").1 = .ok r := (verify_of_kept (callers true) parsed kept).1
  obtain ⟨-, -, -, backed⟩ := Report.backed_unless_loaded fun _ => False
  exact ⟨r, returned, verified, backed Bool callers .default 0 [.verify false "acc://alice"]
    (callers true) "acc://alice" r returned verified⟩

namespace Storage.Sample

/-- A stored report in which no layer has run, with the level of trust raised to full. -/
def raised : String :=
  "\x7b\"account\":\"acc://alice\",\"verified\":false,\"trust_level\":\"full\",\"layers\":[],"
    ++ "\"inclusion\":null,\"consensus\":null,\"timing\":\x7b\"started_at_ms\":0,"
    ++ "\"total_micros\":0,\"layer_micros\":\x7b\x7d\x7d\x7d"

theorem read?_raised :
    ∃ r : Report, read? raised = some r ∧ r.verified = true ∧ r.findings = [] := by
  have parsed : Json.parse? raised = some (.object [("account", .string "acc://alice"),
      ("verified", .bool false), ("trust_level", .string "full"), ("layers", .array []),
      ("inclusion", .null), ("consensus", .null), ("timing", .object [("started_at_ms", .integer 0),
        ("total_micros", .integer 0), ("layer_micros", .object [])])]) := by
    unfold Json.parse? raised
    simp only [String.toList_append, String.reduceToList, List.cons_append, List.nil_append]
    rfl
  rw [read?, parsed]
  exact ⟨_, rfl, rfl, rfl⟩

end Storage.Sample

/-- So a text may be loaded as verified that no layer stands behind. -/
theorem Storage.loads_unbacked :
    ¬ ∀ (text : String) (r : Report), read? text = some r → r.Backed := by
  intro backed
  obtain ⟨r, loads, verified, empty⟩ := Sample.read?_raised
  obtain ⟨-, shows⟩ := backed _ r loads verified
  obtain ⟨⟨f, member, -⟩, -⟩ := shows .entryInclusion List.mem_cons_self
  rw [empty] at member
  cases member

end LightClient
