import SchemaCast.Proofs.CastTermination
import SchemaCast.Proofs.Visits

/-!
# Recursive schemas

A schema may refer to itself as long as every way back to a place takes the value apart: through a
property of a hash, an element of an array or an element that `contains` looks for. Then the bound
on the depth that `Node.validate` and `Node.cast` compute is never reached. A traversal that notes
where it goes shows what this means: it visits one finite list of places, and a greater bound adds
none.
-/
namespace SchemaCast

variable {σ : Type} {context : Context}

namespace Place

variable {root : Node}

/-- No chain of alternatives and references comes back to where it began, if some rank falls with
each of its steps. -/
theorem guarded_of_rank {rank : Place → Nat}
    (falls : ∀ place target, root.place.Reaches context place → place.Idles context target →
      rank target < rank place) (place : Place) (reached : root.place.Reaches context place) :
    ¬ Relation.TransGen (Idles context) place place := by
  intro cycle
  have lower {target : Place} (steps : Relation.TransGen (Idles context) place target) :
      root.place.Reaches context target ∧ rank target < rank place := by
    induction steps with
    | single idle => exact ⟨reached.tail idle.step, falls _ _ reached idle⟩
    | tail _ idle ih =>
      have := falls _ _ ih.1 idle
      exact ⟨ih.1.tail idle.step, by omega⟩
  exact Nat.lt_irrefl _ (lower cycle).2

/-- Without references the alternatives of a schema get smaller and smaller. -/
theorem guarded_of_nameless
    (nameless : ∀ place, root.place.Reaches context place → place.node.kind.referenced = [])
    (place : Place) (reached : root.place.Reaches context place) :
    ¬ Relation.TransGen (Idles context) place place := by
  have falls (place target : Place) (reached : root.place.Reaches context place)
      (idle : place.Idles context target) : target.node.size < place.node.size := by
    cases idle with
    | alternative kind owned =>
      exact Node.size_lt_of_child (by simpa [Node.children, kind] using owned)
    | reference kind =>
      have none := nameless place reached
      simp [kind, Kind.referenced] at none
  exact guarded_of_rank falls place reached

theorem ncard_ahead_le {place : Place} (reached : root.place.Reaches context place) :
    (place.ahead context).ncard ≤ root.size + Schema.sizeNamed context :=
  (Set.ncard_le_ncard (ahead_subset reached) (finite_reaches context root)).trans
    (ncard_reaches_le context root)

/-- The bound on the depth leaves room for all places at every height of the value. -/
theorem effort_lt_depthBound (context : Context) (root : Node) (value : Json) :
    root.place.effort context (root.size + Schema.sizeNamed context) value <
      root.depthBound (.ofContext context : Resolver σ) value := by
  have low : value.height ≤ value.size := value.height_le_size
  have few (place : Place) (reached : root.place.Reaches context place) :
      (place.ahead context).ncard ≤ root.size + Schema.sizeNamed context := ncard_ahead_le reached
  have less := effort_lt few .refl low
  have size : (Resolver.ofContext context : Resolver σ).size = Schema.sizeNamed context := rfl
  rw [Node.depthBound, size]
  generalize root.size + Schema.sizeNamed context = schemas at less ⊢
  calc root.place.effort context schemas value
      < (value.size + 1) * (schemas + 1) := less
    _ = (schemas + 1) * (value.size + 1) := Nat.mul_comm ..
    _ ≤ (schemas + 1) * (schemas + 1 + value.size) := Nat.mul_le_mul_left _ (by omega)

/-! ### Greater bounds -/

/-- More fuel only ever turns a check that is cut off into one that is not, also on record. -/
theorem checkVisiting_cutOff (place : Place) (value : Json) {fuel more : Nat} (h : fuel ≤ more) :
    (cutOff (List Place)).check (fun _ _ => True)
      (place.node.checkVisiting fuel value (place.scope (.ofContext context)))
      (place.node.checkVisiting more value (place.scope (.ofContext context))) := by
  induction fuel generalizing place value more with
  | zero => exact fun _ => .inl rfl
  | succ fuel ih =>
    obtain ⟨more, rfl⟩ : ∃ n, more = n + 1 := ⟨more - 1, by omega⟩
    have noted : (cutOff (List Place)).check (fun _ _ => True) (Check.ofRun place.visit)
        (Check.ofRun place.visit) := fun _ => .inr ⟨rfl, .ok trivial⟩
    exact (cutOff (List Place)).check_bind noted fun _ _ _ =>
      (cutOff (List Place)).checkWith_related (serves_cutOff place)
        (fun target _ value => ih target value (by omega)) value

/-- More fuel only ever turns a cast that is cut off into one that is not, also on record. -/
theorem castVisiting_cutOff (place : Place) (value : Json) {fuel more : Nat} (h : fuel ≤ more) :
    CutOff Eq (place.castVisiting context fuel value) (place.castVisiting context more value) := by
  induction fuel generalizing place value more with
  | zero => exact fun _ => .inl rfl
  | succ fuel ih =>
    obtain ⟨more, rfl⟩ : ∃ n, more = n + 1 := ⟨more - 1, by omega⟩
    have noted : CutOff Eq place.visit place.visit := fun _ => .inr ⟨rfl, .ok rfl⟩
    exact noted.bind fun _ _ _ => (cutOff (List Place)).castWith_related (serves_cutOff place)
      (fun target _ value => checkVisiting_cutOff target value (by omega))
      (fun target _ value => ih target value (by omega)) value

end Place

/-- If no default can be met, and no chain of alternatives and references comes back to where it
began, then the validation and the cast of every value come to an end. Each of them visits one
finite list of places, and does so under every greater bound too. -/
theorem recursion_ends {root : Node}
    (undefaulted : ∀ place, root.place.Reaches context place → place.node.default? = none)
    (guarded : ∀ place, root.place.Reaches context place →
      ¬ Relation.TransGen (Place.Idles context) place place) (value : Json) :
    ∃ validated casted : List Place, ∀ s : σ,
      (root.validate (.ofContext context) value s).1 ≠ .error .exhausted ∧
      (root.cast (.ofContext context) value s).1 ≠ .error .exhausted ∧
      ∀ more ≥ root.depthBound (.ofContext context : Resolver σ) value,
        root.place.validateVisiting context more value [] =
            ((root.validate (.ofContext context) value s).1, validated) ∧
          root.place.castVisiting context more value [] =
            ((root.cast (.ofContext context) value s).1, casted) := by
  let bound := root.depthBound (.ofContext context : Resolver σ) value
  have hlimit (place : Place) (reached : root.place.Reaches context place) :=
    Place.ncard_ahead_le reached
  have enough := Place.effort_lt_depthBound (σ := σ) context root value
  have checks := Place.check_ends_of_undefaulted (σ := σ) undefaulted guarded hlimit .refl enough
  have casts := Place.cast_ends_of_undefaulted (σ := σ) undefaulted guarded hlimit .refl enough
  have validates := (Place.uncut σ).run_trial checks
  refine ⟨(root.place.validateVisiting context bound value []).2,
    (root.place.castVisiting context bound value []).2, fun s => ?_⟩
  have validated : (root.validate (.ofContext context) value s).1 ≠ .error .exhausted :=
    fun cut => (validates s trivial).2.2 _ cut rfl
  have casted : (root.cast (.ofContext context) value s).1 ≠ .error .exhausted :=
    fun cut => (casts s trivial).2.2 _ cut rfl
  have sameLog : (root.place.validateVisiting context bound value []).1 =
      (root.validate (.ofContext context) value s).1 :=
    alike_eq ((alike (List Place) σ).run_trial
      (Place.checkVisiting_alike bound root.place value)) [] s
  have sameOutput : (root.place.castVisiting context bound value []).1 =
      (root.cast (.ofContext context) value s).1 :=
    alike_eq (Place.castVisiting_alike bound root.place value) [] s
  refine ⟨validated, casted, fun more enough => ⟨?_, ?_⟩⟩
  · have cut : CutOff Eq (root.place.validateVisiting context bound value)
        (root.place.validateVisiting context more value) :=
      (cutOff (List Place)).run_trial (Place.checkVisiting_cutOff root.place value enough)
    rw [← sameLog] at validated ⊢
    exact cut.eq validated
  · have cut : CutOff Eq (root.place.castVisiting context bound value)
        (root.place.castVisiting context more value) :=
      Place.castVisiting_cutOff root.place value enough
    rw [← sameOutput] at casted ⊢
    exact cut.eq casted

/-- A rank that falls from combinations to references and from references to all other kinds. -/
def Kind.idleRank : Kind → Nat
  | .combination .. => 2
  | .reference _ => 1
  | _ => 0

/-- A tree whose lists of children may be spelled as texts, cast twice in a row. -/
theorem recursion_ends_tree :
    let tree : Node := ⟨{}, .reference "tree"⟩
    let list : Node := ⟨{}, .array { items := .list tree, parseText := true }⟩
    let branch : Node := ⟨{}, .hash { properties := [("kids", list)] }⟩
    let root : Node := ⟨{}, .combination .allOf [tree, tree] false⟩
    let context : Context := [("tree", branch)]
    let value : Json := .obj [("kids", .str "[{}]")]
    ∃ casted : List Place, ∀ more ≥ root.depthBound (.ofContext context : Resolver Unit) value,
      root.place.castVisiting context more value [] =
        (.ok (.obj [("kids", .arr [.obj []])]), casted) := by
  intro tree list branch root context value
  let nodes : List Node := [root, tree, branch, list]
  have closed (node : Node) (mem : node ∈ nodes) :
      node.children ⊆ nodes ∧ node.definitions = [] := by
    simp only [nodes, List.mem_cons, List.not_mem_nil, or_false] at mem
    rcases mem with rfl | rfl | rfl | rfl <;>
      exact ⟨by simp [nodes, Node.children, Node.ofPolicy, root, tree, branch, list], rfl⟩
  have found (name : String) (schema : Node) (h : context.get? name = some schema) :
      schema = branch :=
    congrArg Prod.snd (List.mem_singleton.mp (Entries.mem_of_get? h))
  have written (place : Place) (reached : root.place.Reaches context place) :
      place.node ∈ nodes ∧ place.outer = [] :=
    Place.mem_of_reaches closed (by simp [context, nodes]) List.mem_cons_self reached
  have undefaulted (place : Place) (reached : root.place.Reaches context place) :
      place.node.default? = none := by
    have mem := (written place reached).1
    simp only [nodes, List.mem_cons, List.not_mem_nil, or_false] at mem
    rcases mem with same | same | same | same <;> rw [same] <;> rfl
  have falls (place target : Place) (reached : root.place.Reaches context place)
      (idle : place.Idles context target) :
      target.node.kind.idleRank < place.node.kind.idleRank := by
    obtain ⟨mem, outermost⟩ := written place reached
    obtain ⟨_, none⟩ := closed _ mem
    have inner : place.inner = [] := by simp [Place.inner, External.stackBelow, none, outermost]
    simp only [nodes, List.mem_cons, List.not_mem_nil, or_false] at mem
    cases idle with
    | alternative kind owned =>
      rcases mem with same | same | same | same <;> rw [same] at kind <;> cases kind
      simp only [List.mem_cons, List.not_mem_nil, or_false, or_self] at owned
      simp [Kind.idleRank, same, owned, root, tree]
    | reference kind leads =>
      rw [inner] at leads
      obtain ⟨schema, h, rfl⟩ := Option.map_eq_some_iff.mp leads
      simp [Kind.idleRank, kind, found _ schema h, branch]
  obtain ⟨_, casted, ends⟩ := recursion_ends (σ := Unit) undefaulted
    (fun place => Place.guarded_of_rank falls place) value
  refine ⟨casted, fun more enough => ?_⟩
  rw [((ends ()).2.2 more enough).2]
  rfl

end SchemaCast
