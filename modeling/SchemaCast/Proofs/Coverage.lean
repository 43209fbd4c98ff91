import SchemaCast.Proofs.Determinacy
import SchemaCast.Proofs.ExternalNames
import SchemaCast.Proofs.Invariant

/-!
# Runs ask for external names only

A run moves through places that are written in the schema or in the schema of an external name.
When it uses a name there that no definitions around the place declare, then `Node.externalNames`
has listed it. A context that notes what it is asked for makes the questions of a run visible.
-/
namespace SchemaCast

variable {σ : Type}

/-- The schemas of a context. The state is the list of the names asked for so far. -/
def Resolver.noting (context : Context) : Resolver (List String) where
  external name := fun asked => (.ok (context.get? name), asked ++ [name])
  size := (Resolver.ofContext context : Resolver Unit).size

/-- A name is only asked for if no definitions declare it, and it leads to the place it always leads
to. -/
theorem Scope.target_noting (context : Context) (stack : List Definitions) (name : String)
    (asked : List String) :
    (⟨.noting context, stack⟩ : Scope (List String)).target name asked =
      (match context.place? stack name with
        | some place => .ok (place.node, place.scope (.noting context))
        | none => .error (.schema (.unresolvedReference name)),
      match lookupLocal name stack with
        | some _ => asked
        | none => asked ++ [name]) := by
  unfold Context.place? Scope.target
  cases lookupLocal name stack with
  | some found => rfl
  | none =>
    have external : (Resolver.noting context).external name asked =
        (.ok (context.get? name), asked ++ [name]) := rfl
    cases found : context.get? name <;>
    · rw [found] at external
      exact Run.bind_ok external

namespace Place

/-- A place that is written in a schema, or in the schema of one of some names. -/
def WrittenIn (context : Context) (root : Node) (names : List String) (place : Place) : Prop :=
  ∃ schema : Node, (schema = root ∨ ∃ name ∈ names, context.get? name = some schema) ∧
    schema.place.Within place

namespace WrittenIn

variable {context : Context} {root : Node} {names : List String} {place target : Place}

/-- What a name leads to is written in the schema, or in the schema of a listed name. -/
theorem of_place? (written : place.WrittenIn context root names) {name : String}
    (listed : lookupLocal name place.inner = none → ∀ schema, context.get? name = some schema →
      name ∈ names)
    (leads : context.place? place.inner name = some target) :
    target.WrittenIn context root names := by
  unfold Context.place? at leads
  cases declared : lookupLocal name place.inner with
  | some found =>
    obtain ⟨schema, origin, within⟩ := written
    rw [declared] at leads
    cases leads
    exact ⟨schema, origin, within_of_lookupLocal rfl within declared⟩
  | none =>
    simp only [declared] at leads
    obtain ⟨schema, found, rfl⟩ := Option.map_eq_some_iff.mp leads
    exact ⟨schema, .inr ⟨name, listed declared schema found, found⟩, .refl⟩

/-- No step leaves what is written in a schema and in the schemas of the names, if every name that
is asked for is one of them. -/
theorem of_step (written : place.WrittenIn context root names)
    (listed : ∀ name ∈ place.node.kind.referenced, lookupLocal name place.inner = none →
      ∀ schema, context.get? name = some schema → name ∈ names)
    (step : place.Step context target) : target.WrittenIn context root names := by
  cases step with
  | child owned =>
    obtain ⟨schema, origin, within⟩ := written
    exact ⟨schema, origin, within.tail (.child owned)⟩
  | @reference name _ kind leads =>
    refine written.of_place? (listed name ?_) leads
    rw [kind]
    exact List.mem_singleton_self name
  | @included rules _ name _ entry kind mem leads hash property =>
    have referenced : name ∈ place.node.kind.referenced := by rw [kind]; exact mem
    obtain ⟨schema, origin, within⟩ := written.of_place? (listed name referenced) leads
    exact ⟨schema, origin, within.tail (.child (Node.mem_children_of_property hash property))⟩

end WrittenIn

end Place

/-- Names are in a list, and have a schema, wherever they are needed in a schema or in the schema
of a name in the list. -/
def Covers (context : Context) (root : Node) (names : List String) : Prop :=
  ∀ place, Place.WrittenIn context root names place → ∀ name, place.NeedsExternal name →
    name ∈ names ∧ ∃ schema, context.get? name = some schema

/-- The names that come out of the search cover the schema. -/
theorem covers_externalNames {context : Context} {root : Node} {names : List String} {s : σ}
    (h : (root.externalNames (.ofContext context) s).1 = .ok names) :
    Covers context root names := by
  obtain ⟨before, followed⟩ := External.followed_of_follow _ (fun _ mem => by simp at mem) h
  have listed : ∀ place, Place.WrittenIn context root names place → ∀ name,
      place.NeedsExternal name → name ∈ names := by
    rintro place ⟨schema, rfl | ⟨origin, mem, found⟩, within⟩ name needs
    · exact before.subset ((External.mem_collect schema).mpr (.inr ⟨place, within, needs⟩))
    · obtain ⟨schema', found', needed⟩ := followed origin mem
      rw [found] at found'
      cases found'
      exact needed place within name needs
  intro place written name needs
  have mem := listed place written name needs
  obtain ⟨schema, found, _⟩ := followed name mem
  exact ⟨mem, schema, found⟩

namespace Covers

variable {context : Context} {root : Node} {names : List String} {place target : Place}

/-- No step leaves what is written in the schema and in the schemas of the listed names. -/
theorem written_of_step (covers : Covers context root names)
    (written : place.WrittenIn context root names) (step : place.Step context target) :
    target.WrittenIn context root names :=
  written.of_step (fun name referenced undeclared _ _ =>
    (covers place written name ⟨referenced, undeclared⟩).1) step

/-- Every name that is used leads somewhere. -/
theorem leads (covers : Covers context root names)
    (written : place.WrittenIn context root names) {name : String}
    (referenced : name ∈ place.node.kind.referenced) :
    ∃ target, context.place? place.inner name = some target := by
  unfold Context.place?
  cases declared : lookupLocal name place.inner with
  | some found => exact ⟨⟨found.1, found.2⟩, rfl⟩
  | none =>
    obtain ⟨_, schema, found⟩ := covers place written name ⟨referenced, declared⟩
    exact ⟨⟨schema, []⟩, by rw [found]; rfl⟩

theorem not_unresolved (covers : Covers context root names)
    (written : place.WrittenIn context root names) {error : SchemaError}
    (deadEnd : place.DeadEnd context error) (name : String) :
    error ≠ .unresolvedReference name := by
  cases deadEnd with
  | unresolved referenced nowhere =>
    obtain ⟨target, leads⟩ := covers.leads written referenced
    rw [leads] at nowhere
    cases nowhere
  | notHash => intro h; cases h

end Covers

/-- A fault other than a name that leads nowhere. -/
def Resolved (fault : Fault) : Prop := ∀ name, fault ≠ .schema (.unresolvedReference name)

theorem resolved_exhausted : Resolved .exhausted := fun _ same => by cases same

section Noting

variable {context : Context}

/-- A run with a noting context has the results of a run with the context. -/
theorem serves_noting (place : Place) :
    (alike (List String) σ).Serves context (.noting context) (.ofContext context) place where
  target name _ := by
    rw [Scope.target_ofContext]
    cases leads : context.place? place.inner name with
    | some target =>
      refine ⟨_, _, .ok ⟨target, leads, rfl, rfl⟩, fun asked => ?_, fun _ => rfl⟩
      rw [Scope.target_noting, leads]
    | none =>
      refine ⟨_, _, .error (.schema (.unresolvedReference name)), fun asked => ?_, fun _ => rfl⟩
      rw [Scope.target_noting, leads]
  deadEnd {_ _ _ error} _ := ⟨_, _, .error (.schema error), fun _ => rfl, fun _ => rfl⟩

/-- At a covered place nothing but listed names is asked for, and no name leads nowhere. -/
theorem Covers.serves {root : Node} {names : List String} (covers : Covers context root names)
    {place : Place} (written : place.WrittenIn context root names) :
    (keeps σ (fun asked => asked ⊆ names) Resolved).Serves context (.noting context)
      (.ofContext context) place where
  target name referenced asked known := by
    obtain ⟨target, leads⟩ := covers.leads written referenced
    rw [Scope.target_noting, leads]
    refine ⟨?_, fun a ha => ?_, fun fault hfault => by cases hfault⟩
    · cases declared : lookupLocal name place.inner with
      | some found => exact known
      | none =>
        have mem := (covers place written name ⟨referenced, declared⟩).1
        exact List.append_subset.mpr ⟨known, by simpa using mem⟩
    · cases ha
      exact ⟨_, target, leads, rfl, rfl⟩
  deadEnd deadEnd := .broken fun name same => by
    cases same
    exact covers.not_unresolved written deadEnd name rfl

/-- A run never fails for want of a schema, and a context that notes what it is asked for shows that
it is asked for listed names only. -/
structure Run.AsksWithin {α : Type} (names : List String) (run : Run σ α)
    (noting : Run (List String) α) : Prop where
  resolved (s : σ) (name : String) : (run s).1 ≠ .error (.schema (.unresolvedReference name))
  asked : (noting []).2 ⊆ names
  same (s : σ) : (noting []).1 = (run s).1

theorem Run.asksWithin_of {α : Type} {names : List String} {run : Run σ α}
    {noting : Run (List String) α}
    (asks : noting.Holds (fun asked => asked ⊆ names) Resolved fun a => ∃ b, a = b)
    (same : (alike (List String) σ).run Eq noting run) : run.AsksWithin names noting where
  resolved s name h := by
    rw [← alike_eq same [] s] at h
    exact (asks [] (List.nil_subset _)).2.2 _ h name rfl
  asked := (asks [] (List.nil_subset _)).1
  same s := alike_eq same [] s

/-- If the search for external names comes to a result, then no validation and no cast of any value
ever misses a schema, and all that it asks the context for is among the names found. This holds for
every bound on the depth, that of `Node.validate` and `Node.cast` included. -/
theorem asksWithin_externalNames {root : Node} {names : List String} {s : σ}
    (h : (root.externalNames (.ofContext context) s).1 = .ok names) (fuel : Nat)
    (value : Json) :
    (root.place.validate fuel (.ofContext context : Resolver σ) value).AsksWithin names
        (root.place.validate fuel (.noting context) value) ∧
      (root.place.cast fuel (.ofContext context : Resolver σ) value).AsksWithin names
        (root.place.cast fuel (.noting context) value) := by
  have covers : Covers context root names := covers_externalNames h
  have start : root.place.WrittenIn context root names := ⟨root, .inl rfl, .refl⟩
  have closed (place target : Place) (written : place.WrittenIn context root names)
      (step : place.Step context target) : target.WrittenIn context root names :=
    covers.written_of_step written step
  have free (place target : Place) (_ : True) (_ : place.Step context target) : True := trivial
  constructor
  · have asks := (keeps σ _ Resolved).validate_related closed
      (fun _ written => covers.serves written) (.exhausted resolved_exhausted) fuel root.place
      start value
    have same := (alike (List String) σ).validate_related free
      (fun place _ => serves_noting place) exhausted_alike fuel root.place trivial value
    exact Run.asksWithin_of asks same
  · have asks := (keeps σ _ Resolved).cast_related closed
      (fun _ written => covers.serves written) (.exhausted resolved_exhausted) fuel root.place
      start value
    have same := (alike (List String) σ).cast_related free
      (fun place _ => serves_noting place) exhausted_alike fuel root.place trivial value
    exact Run.asksWithin_of asks same

/-- A schema that includes a hash, and whose schemas refer to one another. -/
theorem asksWithin_externalNames_include :
    let root : Node :=
      ⟨{}, .hash { properties := [("x", ⟨{}, .reference "a"⟩)], includes := ["b"] }⟩
    let context : Context :=
      [("a", ⟨{}, .symbol⟩), ("b", ⟨{}, .hash { properties := [("y", ⟨{}, .reference "c"⟩)] }⟩),
        ("c", ⟨{}, .reference "a"⟩)]
    let value : Json := .obj [("x", .str "s"), ("y", .int 1)]
    (root.externalNames (.ofContext context) ()).1 = .ok ["b", "a", "c"] ∧
      (root.place.cast 5 (.ofContext context : Resolver Unit) value).AsksWithin ["b", "a", "c"]
        (root.place.cast 5 (.noting context) value) ∧
      (root.place.cast 5 (.noting context) value []).2 = ["a", "b", "c", "a"] := by
  intro root context value
  have names : (root.externalNames (.ofContext context) ()).1 = .ok ["b", "a", "c"] := rfl
  exact ⟨names, (asksWithin_externalNames names 5 value).2, rfl⟩

end Noting

end SchemaCast
