import SchemaCast.Proofs.Place

/-!
# Simulations of traversals

`Node.checkWith` and `Node.castWith` are written against an unknown treatment of the inner nodes.
A `Simulation` is a pair of relations, between runs and between checks, that respects the few
operations a traversal is put together from. `checkWith` and `castWith` carry it from the inner
nodes of a place to the place itself, so that a fact about whole runs needs an argument for the
operations only, and none for the kinds of nodes.
-/
namespace SchemaCast

/-- Relations between runs, and between checks, under which related parts make up related
wholes. Results are related by a relation of their own. -/
structure Simulation (σ τ : Type) where
  run {α β : Type} : (α → β → Prop) → Run σ α → Run τ β → Prop
  check {α β : Type} : (α → β → Prop) → Check σ α → Check τ β → Prop
  run_pure {α β : Type} {V : α → β → Prop} {a : α} {b : β} : V a b → run V (pure a) (pure b)
  run_bind {α β γ δ : Type} {V : α → β → Prop} {W : γ → δ → Prop} {x : Run σ α} {y : Run τ β}
    {f : α → Run σ γ} {g : β → Run τ δ} :
    run V x y → (∀ a b, V a b → run W (f a) (g b)) → run W (x >>= f) (y >>= g)
  run_trial {c : Check σ Unit} {d : Check τ Unit} :
    check (fun _ _ => True) c d → run Eq (Check.trial c) (Check.trial d)
  check_pure {α β : Type} {V : α → β → Prop} {a : α} {b : β} : V a b → check V (pure a) (pure b)
  check_bind {α β γ δ : Type} {V : α → β → Prop} {W : γ → δ → Prop} {x : Check σ α}
    {y : Check τ β} {f : α → Check σ γ} {g : β → Check τ δ} :
    check V x y → (∀ a b, V a b → check W (f a) (g b)) → check W (x >>= f) (y >>= g)
  check_ofRun {α β : Type} {V : α → β → Prop} {x : Run σ α} {y : Run τ β} :
    run V x y → check V (Check.ofRun x) (Check.ofRun y)
  check_record (violation : Violation) :
    check (fun _ _ => True) (Check.record violation) (Check.record violation)
  check_within {α β : Type} {V : α → β → Prop} {c : Check σ α} {d : Check τ β}
    (segment : Segment) : check V c d → check V (Check.within segment c) (Check.within segment d)

namespace Simulation

variable {σ τ : Type} (S : Simulation σ τ)

/-- Two targets of a name used at a place are the place to which the name leads. -/
def SameTarget (context : Context) (r : Resolver σ) (r' : Resolver τ) (place : Place)
    (name : String) (a : Node × Scope σ) (b : Node × Scope τ) : Prop :=
  ∃ target, context.place? place.inner name = some target ∧
    a = (target.node, target.scope r) ∧ b = (target.node, target.scope r')

/-- Two resolvers give the schemas of a context at a place, up to a simulation. -/
structure Serves (context : Context) (r : Resolver σ) (r' : Resolver τ) (place : Place) :
    Prop where
  target : ∀ name ∈ place.node.kind.referenced, S.run (SameTarget context r r' place name)
    (Scope.target ⟨r, place.inner⟩ name) (Scope.target ⟨r', place.inner⟩ name)
  deadEnd : ∀ {α β : Type} {V : α → β → Prop} {error : SchemaError},
    place.DeadEnd context error → S.run V (Run.broken error) (Run.broken error)

/-- Looking a name up in a context alone is a matter of `Context.place?`. -/
theorem serves_ofContext {context : Context} {place : Place}
    (deadEnd : ∀ {α β : Type} {V : α → β → Prop} {error : SchemaError},
      place.DeadEnd context error → S.run V (Run.broken error) (Run.broken error)) :
    S.Serves context (.ofContext context) (.ofContext context) place where
  target name referenced := by
    rw [Scope.target_ofContext, Scope.target_ofContext]
    cases leads : context.place? place.inner name with
    | some target => exact S.run_pure ⟨target, leads, rfl, rfl⟩
    | none => exact deadEnd (.unresolved referenced leads)
  deadEnd := deadEnd

theorem check_forM {γ : Type} {f : γ → Check σ Unit} {g : γ → Check τ Unit} (items : List γ)
    (h : ∀ item ∈ items, S.check (fun _ _ => True) (f item) (g item)) :
    S.check (fun _ _ => True) (items.forM f) (items.forM g) := by
  induction items with
  | nil => exact S.check_pure trivial
  | cons item rest ih =>
    change S.check _ (f item >>= fun _ => rest.forM f) (g item >>= fun _ => rest.forM g)
    refine S.check_bind (h item (by simp)) fun _ _ _ => ?_
    exact ih fun other hother => h other (by simp [hother])

theorem check_recordAll (violations : List Violation) :
    S.check (fun _ _ => True) (Check.recordAll violations) (Check.recordAll violations) :=
  S.check_forM violations fun violation _ => S.check_record violation

theorem check_recordIf (condition : Bool) (violation : Violation) :
    S.check (fun _ _ => True) (Check.recordIf condition violation)
      (Check.recordIf condition violation) := by
  unfold Check.recordIf
  split
  · exact S.check_record violation
  · exact S.check_pure trivial

/-- One check after another. -/
theorem check_seq {α β : Type} {V : α → β → Prop} {c : Check σ Unit} {d : Check τ Unit}
    {c' : Check σ α} {d' : Check τ β} (first : S.check (fun _ _ => True) c d)
    (second : S.check V c' d') : S.check V (c >>= fun _ => c') (d >>= fun _ => d') :=
  S.check_bind first fun _ _ _ => second

section Places

variable {context : Context} {r : Resolver σ} {r' : Resolver τ} {place : Place}

/-- Both sides see the same properties of an included hash, in the same scope. -/
theorem run_includedBy (serves : S.Serves context r r' place) {rules : HashRules}
    (kind : place.node.kind = .hash rules) {name : String} (listed : name ∈ rules.includes)
    (taken : List String) :
    S.run (fun a b => a.1 = b.1 ∧ ∃ target : Place, a.2 = ⟨r, target.inner⟩ ∧
        b.2 = ⟨r', target.inner⟩ ∧
        ∀ entry ∈ a.1, place.Step context ⟨entry.2, target.inner⟩)
      (rules.includedBy ⟨r, place.inner⟩ taken name)
      (rules.includedBy ⟨r', place.inner⟩ taken name) := by
  have referenced : name ∈ place.node.kind.referenced := by rw [kind]; exact listed
  refine S.run_bind (serves.target name referenced) ?_
  intro _ _ h
  obtain ⟨target, leads, rfl, rfl⟩ := h
  have properties : S.run (fun a b => a = b ∧
      ∀ entry ∈ a, place.Step context ⟨entry.2, target.inner⟩)
      (HashRules.included name target.node) (HashRules.included name target.node) := by
    unfold HashRules.included
    split
    case h_1 targetRules hash =>
      exact S.run_pure ⟨rfl, fun entry hentry => .included kind listed leads hash hentry⟩
    case h_2 other =>
      exact serves.deadEnd (.notHash kind listed leads fun targetRules hash => other _ hash)
  refine S.run_bind properties ?_
  intro all _ h
  obtain ⟨rfl, hall⟩ := h
  refine S.run_pure ⟨rfl, target, target.enter_scope r, target.enter_scope r', ?_⟩
  intro entry hentry
  exact hall entry (List.mem_filter.mp hentry).1

end Places

end Simulation

end SchemaCast
