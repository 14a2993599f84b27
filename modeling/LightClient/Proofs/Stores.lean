import LightClient.Proofs.Endings

/-!
# Where a verification stores

A step of a verification asks, looks up and stores, and nothing else happens to the cache. So it is
enough to tell for each step which tables it stores in: it leaves the settings alone, and what is
bound in other tables was bound there before.
-/
namespace LightClient.Verifier

variable {v : Verifier} {backend : Backend} {now : UInt64} {α β : Type}

/-- A step keeps the settings of the cache and adds to these tables at most. -/
def StoresIn (tables : List Cache.Table) (m : StateM State α) : Prop :=
  ∀ s : State, s.cache.SameSettings (m s).2.cache ∧ s.cache.Adds tables (m s).2.cache

namespace StoresIn
variable {tables others : List Cache.Table} {t : Cache.Table} {key : String} {m : StateM State α}
  {f : α → StateM State β}

theorem mono (h : StoresIn tables m) (wider : tables ⊆ others) : StoresIn others m := fun s =>
  ⟨(h s).1, (h s).2.mono wider⟩

theorem pure {a : α} : StoresIn tables (pure a) := fun s =>
  ⟨.refl s.cache, .of_subset fun _ hb => hb⟩

theorem asking {u : StateM Journal α} : StoresIn tables (asking u) := fun s =>
  ⟨.refl s.cache, .of_subset fun _ hb => hb⟩

theorem bind (first : StoresIn tables m) (next : ∀ a, StoresIn tables (f a)) :
    StoresIn tables (m >>= f) := fun s => by
  obtain ⟨settings, adds⟩ := first s
  obtain ⟨settings', adds'⟩ := next (m s).1 (m s).2
  exact ⟨settings.trans settings', adds.trans adds'⟩

theorem lookup : StoresIn tables (lookup now t key) := fun _ => ⟨Cache.get_settings, Cache.adds_get⟩

theorem remember {value : t.Value} (member : t ∈ tables) :
    StoresIn tables (remember now t key value) := fun _ =>
  ⟨Cache.store_settings, Cache.adds_store member⟩

end StoresIn

theorem locateInclusion_stores (account : Url) :
    StoresIn [] (v.locateInclusion backend now account) := by
  refine .bind .asking fun answered => ?_
  cases answered with
  | error f => exact .pure
  | ok index =>
    refine .bind .lookup fun kept => ?_
    cases kept with
    | some p => exact .pure
    | none => exact .bind .asking fun _ => .pure

theorem findInclusion_stores (account : Url) : StoresIn [] (v.findInclusion backend now account) :=
  (locateInclusion_stores account).bind fun _ => .pure

theorem rememberInclusion_stores (p : Inclusion) :
    StoresIn Layer.entryInclusion.tables (rememberInclusion now p) :=
  .bind (.remember (by decide)) fun _ => .remember (by decide)

theorem fetchSignatures_stores (partition : Url) (block : Block) :
    StoresIn Layer.blockSignatures.tables (fetchSignatures backend now partition block) := by
  refine .bind .asking fun (finding, finality?) => ?_
  cases finality? with
  | none => exact .pure
  | some finality => exact .bind (.remember (by decide)) fun _ => .pure

theorem verifySignatures_stores (partition : Url) (block : Block) :
    StoresIn Layer.blockSignatures.tables (verifySignatures backend now partition block) := by
  unfold verifySignatures
  cases HeaderTree.checkAppHash block with
  | error f => exact .pure
  | ok _ =>
    refine .bind .lookup fun kept => ?_
    cases kept with
    | none => exact fetchSignatures_stores partition block
    | some finality =>
      dsimp only
      split
      · exact .pure
      · exact fetchSignatures_stores partition block

theorem verifyGenesis_stores (finality : Finality) :
    StoresIn Layer.genesisTrust.tables (v.verifyGenesis backend now finality) := by
  refine .bind .lookup fun kept => ?_
  cases kept with
  | some trace => exact .pure
  | none =>
    refine .bind .asking fun traced => ?_
    cases traced with
    | ok trace => exact .bind (.remember (by decide)) fun _ => .pure
    | error f =>
      dsimp only
      split <;> exact .pure

theorem runSigned_stores (o : Outcome) (partition : Url) (block : Block) :
    StoresIn [.finalities, .traces] (v.runSigned backend now o partition block) := by
  refine .bind ((verifySignatures_stores partition block).mono (by decide))
    fun (finding, finality?) => ?_
  cases finality? with
  | none => exact .pure
  | some finality =>
    refine .bind ((verifyGenesis_stores finality).mono (by decide)) fun traced => ?_
    cases traced <;> exact .pure

theorem runAnchored_stores (o : Outcome) (home : Url) (root : Hash) (block : Block) :
    StoresIn [.finalities, .traces] (v.runAnchored backend now o home root block) := by
  unfold runAnchored
  split
  · refine .bind .asking fun (finding, anchored?) => ?_
    cases anchored? with
    | none => exact .pure
    | some anchored => exact runSigned_stores _ _ _
  · exact runSigned_stores _ _ _

/-- After the first layer neither receipts nor inclusions are stored. -/
theorem runCommitted_stores (o : Outcome) (p : Inclusion) :
    StoresIn [.finalities, .traces] (v.runCommitted backend now o p) := by
  unfold runCommitted
  cases Url.parse p.sourcePartition with
  | error e => exact .pure
  | ok home =>
    refine .bind .asking fun (finding, block?) => ?_
    cases block? with
    | none => exact .pure
    | some block => exact runAnchored_stores _ _ _ _

/-- No report is stored by the layers themselves. -/
theorem runLayers_stores (account : Url) :
    StoresIn [.receipts, .inclusions, .finalities, .traces] (v.runLayers backend now account) := by
  refine .bind ((findInclusion_stores account).mono (by decide)) fun found => ?_
  cases found with
  | error f =>
    dsimp only
    split <;> exact .pure
  | ok p =>
    dsimp only
    split
    · exact .bind ((rememberInclusion_stores p).mono (by decide))
        fun _ => (runCommitted_stores _ p).mono (by decide)
    · exact .pure

end LightClient.Verifier
