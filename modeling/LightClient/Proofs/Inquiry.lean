import LightClient.Backend

/-!
# Success of inquiries

An inquiry succeeds when every step of it does. What was asked is then the end of the journal, so
the success of a whole inquiry can be read off the answers one by one. With a backend whose answers
are fixed neither the result nor the questions depend on what was asked before.
-/
namespace LightClient

variable {α β : Type}

namespace Failure

theorem bind_eq_ok {x : Except Failure α} {f : α → Except Failure β} {b : β} :
    (x >>= f) = .ok b ↔ ∃ a, x = .ok a ∧ f a = .ok b := by
  cases x with
  | error e => simp [bind, Except.bind]
  | ok a => simp [bind, Except.bind]

theorem map_eq_ok {x : Except Failure α} {f : α → β} {b : β} :
    x.map f = .ok b ↔ ∃ a, x = .ok a ∧ f a = b := by
  cases x with
  | error e => simp [Except.map]
  | ok a => simp [Except.map]

/-- A check only lets a computation go on. -/
theorem check_bind_eq_ok {x : Except Failure Unit} {f : Unit → Except Failure β} {b : β} :
    (x >>= f) = .ok b ↔ x = .ok () ∧ f () = .ok b := by
  rw [bind_eq_ok]
  constructor
  · intro h
    obtain ⟨⟨⟩, passed, rest⟩ := h
    exact ⟨passed, rest⟩
  · intro h
    obtain ⟨passed, rest⟩ := h
    exact ⟨(), passed, rest⟩

theorem inContext_eq_ok {text : String} {x : Except Failure α} {a : α} :
    inContext text x = .ok a ↔ x = .ok a := by
  cases x with
  | error e =>
    constructor
    · intro h
      cases h
    · intro h
      cases h
  | ok b => exact Iff.rfl

theorem ofAnswer_eq_ok {text : String} {x : Except QueryError α} {a : α} :
    ofAnswer text x = .ok a ↔ x = .ok a := by
  cases x with
  | error e =>
    constructor
    · intro h
      cases h
    · intro h
      cases h
  | ok b =>
    constructor
    · intro h
      exact congrArg Except.ok (Except.ok.inj h)
    · intro h
      exact congrArg Except.ok (Except.ok.inj h)

end Failure

namespace Journal

/-- The query got this result at some time. -/
def Told (j : Journal) (query : Query) (result : Except QueryError query.Answer) : Prop :=
  ⟨query, result⟩ ∈ j

theorem Told.mono {j j' : Journal} {query : Query} {result : Except QueryError query.Answer}
    (h : j.Told query result) (grown : j <+: j') : j'.Told query result := grown.subset h

theorem told_append (j : Journal) (query : Query) (result : Except QueryError query.Answer) :
    Told (j ++ [⟨query, result⟩]) query result := List.mem_append_right j List.mem_cons_self

end Journal

namespace Backend

/-- After the journal `j` the backend answers the query, which makes the journal `j'`. -/
def Gives (backend : Backend) (j : Journal) (query : Query) (answer : query.Answer)
    (j' : Journal) : Prop :=
  backend j query = .ok answer ∧ j' = j ++ [⟨query, .ok answer⟩]

variable {backend : Backend} {j j' : Journal} {query : Query} {answer : query.Answer}

theorem Gives.told (h : backend.Gives j query answer j') : j'.Told query (.ok answer) :=
  h.2 ▸ Journal.told_append j query _

theorem gives_fixed {answers : (query : Query) → Except QueryError query.Answer} :
    (fixed answers).Gives j query answer j' ↔
      answers query = .ok answer ∧ j' = j ++ [⟨query, .ok answer⟩] := Iff.rfl

theorem Gives.grown (h : backend.Gives j query answer j') : j <+: j' := ⟨_, h.2.symm⟩

end Backend

namespace Inquiry

/-- After the journal `j` the inquiry succeeds with `a`, which makes the journal `j'`. -/
def Yields (m : Inquiry α) (j : Journal) (a : α) (j' : Journal) : Prop := m.run j = (.ok a, j')

variable {j j' : Journal}

theorem yields_iff {m : Inquiry α} {a : α} :
    Yields m j a j' ↔ (m.run j).1 = .ok a ∧ (m.run j).2 = j' := Prod.ext_iff

theorem exists_yields {m : Inquiry α} {a : α} :
    (∃ j', Yields m j a j') ↔ (m.run j).1 = .ok a := by
  simp only [yields_iff, exists_and_left, exists_eq', and_true]

theorem yields_pure {a b : α} : Yields (pure a) j b j' ↔ b = a ∧ j' = j := by
  constructor
  · intro h
    obtain ⟨result, rest⟩ := Prod.mk.inj h
    exact ⟨(Except.ok.inj result).symm, rest.symm⟩
  · intro h
    obtain ⟨rfl, rfl⟩ := h
    rfl

theorem run_bind_apply (m : Inquiry α) (f : α → Inquiry β) (j : Journal) :
    (m >>= f).run j = match m.run j with
      | (.ok a, j₁) => (f a).run j₁
      | (.error e, j₁) => (.error e, j₁) := by
  change (ExceptT.bindCont f (m.run j).1) (m.run j).2 = _
  obtain ⟨result, j₁⟩ := m.run j
  cases result <;> rfl

theorem yields_bind {m : Inquiry α} {f : α → Inquiry β} {b : β} :
    Yields (m >>= f) j b j' ↔ ∃ a j₁, Yields m j a j₁ ∧ Yields (f a) j₁ b j' := by
  unfold Yields
  rw [run_bind_apply]
  obtain ⟨result, j₁⟩ := m.run j
  cases result with
  | error e =>
    constructor
    · intro h
      cases (Prod.mk.inj h).1
    · intro h
      obtain ⟨_, _, same, -⟩ := h
      cases (Prod.mk.inj same).1
  | ok a =>
    constructor
    · exact fun h => ⟨a, j₁, rfl, h⟩
    · intro h
      obtain ⟨_, _, same, h⟩ := h
      obtain ⟨ra, rj⟩ := Prod.mk.inj same
      cases ra
      cases rj
      exact h

/-- A check within an inquiry asks nothing. -/
theorem yields_lift {x : Except Failure α} {a : α} :
    Yields (liftM x) j a j' ↔ x = .ok a ∧ j' = j := by
  constructor
  · intro h
    obtain ⟨result, rest⟩ := Prod.mk.inj (show (x, j) = (.ok a, j') from h)
    exact ⟨result, rest.symm⟩
  · intro h
    obtain ⟨rfl, rfl⟩ := h
    rfl

theorem yields_lift_bind {x : Except Failure β} {f : β → Inquiry α} {a : α} :
    Yields (liftM x >>= f) j a j' ↔ ∃ b, x = .ok b ∧ Yields (f b) j a j' := by
  rw [yields_bind]
  constructor
  · intro h
    obtain ⟨b, j₁, first, rest⟩ := h
    obtain ⟨passed, rfl⟩ := yields_lift.1 first
    exact ⟨b, passed, rest⟩
  · intro h
    obtain ⟨b, passed, rest⟩ := h
    exact ⟨b, j, yields_lift.2 ⟨passed, rfl⟩, rest⟩

theorem yields_check_bind {x : Except Failure Unit} {f : Unit → Inquiry α} {a : α} :
    Yields (liftM x >>= f) j a j' ↔ x = .ok () ∧ Yields (f ()) j a j' := by
  rw [yields_lift_bind]
  constructor
  · intro h
    obtain ⟨⟨⟩, passed, rest⟩ := h
    exact ⟨passed, rest⟩
  · intro h
    obtain ⟨passed, rest⟩ := h
    exact ⟨(), passed, rest⟩

theorem yields_inContext {m : Inquiry α} {text : String} {a : α} :
    Yields (ExceptT.mk do return Failure.inContext text (← m.run)) j a j' ↔ Yields m j a j' := by
  rw [yields_iff, yields_iff]
  change Failure.inContext text (m.run j).1 = .ok a ∧ (m.run j).2 = j' ↔ _
  rw [Failure.inContext_eq_ok]

theorem yields_ask {backend : Backend} {context : String} {query : Query} {answer : query.Answer} :
    Yields (backend.ask context query) j answer j' ↔ backend.Gives j query answer j' := by
  have run : (backend.ask context query).run j
      = (Failure.ofAnswer context (backend j query), j ++ [⟨query, backend j query⟩]) := rfl
  unfold Yields Backend.Gives
  rw [run, Prod.mk.injEq, Failure.ofAnswer_eq_ok]
  constructor
  · intro h
    obtain ⟨given, rest⟩ := h
    rw [given] at rest
    exact ⟨given, rest.symm⟩
  · intro h
    obtain ⟨given, rest⟩ := h
    rw [given]
    exact ⟨rfl, rest.symm⟩

theorem yields_ask_bind {backend : Backend} {context : String} {query : Query}
    {f : query.Answer → Inquiry α} {a : α} :
    Yields (backend.ask context query >>= f) j a j' ↔
      ∃ answer j₁, backend.Gives j query answer j₁ ∧ Yields (f answer) j₁ a j' := by
  simp only [yields_bind, yields_ask]

end Inquiry

theorem Journal.bind_apply (m : StateM Journal α) (f : α → StateM Journal β) (j : Journal) :
    (m >>= f) j = f (m j).1 (m j).2 := rfl

/-- A step that consults the backend and nothing else. -/
inductive Asks (backend : Backend) : {α : Type} → StateM Journal α → Prop
  | pure {α : Type} (a : α) : Asks backend (pure a)
  | exchange (query : Query) : Asks backend (backend.exchange query)
  | bind {α β : Type} {m : StateM Journal α} {f : α → StateM Journal β} (first : Asks backend m)
      (next : ∀ a, Asks backend (f a)) : Asks backend (m >>= f)

namespace Asks
variable {backend : Backend}

/-- Whatever is asked is added to the journal. -/
theorem grows {m : StateM Journal α} (h : Asks backend m) (j : Journal) : j <+: (m j).2 := by
  induction h generalizing j with
  | pure a => exact List.prefix_refl j
  | exchange query => exact List.prefix_append j _
  | @bind α β m f _ _ first next => exact (first j).trans (next (m j).1 (m j).2)

/-- With fixed answers neither the result nor what is asked depends on what was asked before. -/
theorem oblivious {answers : (query : Query) → Except QueryError query.Answer}
    {m : StateM Journal α}
    (h : Asks (.fixed answers) m) (j : Journal) : m j = ((m []).1, j ++ (m []).2) := by
  induction h generalizing j with
  | pure a =>
    change (a, j) = (a, j ++ [])
    rw [List.append_nil]
  | exchange query => rfl
  | @bind α β m f _ _ first next =>
    rw [Journal.bind_apply, Journal.bind_apply, first j, next _ (j ++ _), next _ (m []).2]
    simp [List.append_assoc]

theorem map {m : StateM Journal α} (h : Asks backend m) (g : α → β) :
    Asks backend (do return g (← m)) := h.bind fun a => .pure (g a)

theorem inquiry_bind {m : Inquiry α} {f : α → Inquiry β} (first : Asks backend m.run)
    (next : ∀ a, Asks backend (f a).run) : Asks backend (m >>= f).run := by
  change Asks backend (m.run >>= ExceptT.bindCont f)
  refine first.bind fun result => ?_
  cases result with
  | ok a => exact next a
  | error e => exact .pure (Except.error e)

theorem ask (context : String) (query : Query) : Asks backend (backend.ask context query).run :=
  (exchange query).map (Failure.ofAnswer context)

theorem check (x : Except Failure α) : Asks backend (liftM x : Inquiry α).run := .pure x

theorem check_bind {x : Except Failure α} {f : α → Inquiry β} (next : ∀ a, Asks backend (f a).run) :
    Asks backend (liftM x >>= f).run := inquiry_bind (check x) next

theorem ask_bind {context : String} {query : Query} {f : query.Answer → Inquiry β}
    (next : ∀ answer, Asks backend (f answer).run) :
    Asks backend (backend.ask context query >>= f).run := inquiry_bind (ask context query) next

end Asks

end LightClient
