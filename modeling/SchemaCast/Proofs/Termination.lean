import Mathlib.Data.Set.Card
import Mathlib.Data.Set.Finite.Lattice
import SchemaCast.Proofs.Coverage
import SchemaCast.Proofs.Fuel
import SchemaCast.Proofs.Height

/-!
# Validations come to an end

At alternatives and at the target of a reference a value is checked as it is, and a default may be
higher than anything there was. If no chain of such steps comes back to where it began, and no
default is met again below itself, then every check asks for checks with less left to do: with fewer
defaults ahead, or of a lower value, or of the same value with fewer places ahead. There are
finitely many places in a schema and a context, so that every validation ends within some bound.
-/
namespace SchemaCast

variable {σ : Type} {context : Context}

namespace Place

/-- No chain of alternatives and references comes back to where it began, and a place with a default
is not met again below itself. -/
structure Consumes (context : Context) (root : Place) : Prop where
  idle : ∀ place, root.Reaches context place → ¬ Relation.TransGen (Idles context) place place
  default : ∀ place, root.Reaches context place → place.node.default?.isSome →
    ¬ Relation.TransGen (Step context) place place

/-! ### Finitely many places -/

/-- If the places of each node are listed by no more places than the node has size, then so are
the places of several nodes. -/
theorem exists_list_of_nodes {R : Node → Place → Prop} (nodes : List Node)
    (each : ∀ node ∈ nodes, ∃ places : List Place,
      places.length ≤ node.size ∧ ∀ place, R node place → place ∈ places) :
    ∃ places : List Place, places.length ≤ Schema.sizeAll nodes ∧
      ∀ node ∈ nodes, ∀ place, R node place → place ∈ places := by
  induction nodes with
  | nil => exact ⟨[], Nat.le_refl 0, by simp⟩
  | cons first rest ih =>
    obtain ⟨here, hhere, listed⟩ := each first (by simp)
    obtain ⟨others, hothers, listed'⟩ := ih fun node mem => each node (by simp [mem])
    refine ⟨here ++ others, ?_, fun node mem place h => List.mem_append.mpr ?_⟩
    · rw [List.length_append, Schema.sizeAll]
      omega
    · rcases List.mem_cons.mp mem with rfl | mem
      · exact .inl (listed place h)
      · exact .inr (listed' node mem place h)

/-- A schema has no more places than its size. -/
theorem exists_list_within (node : Node) (outer : List Definitions) :
    ∃ places : List Place, places.length ≤ node.size ∧
      ∀ place, (⟨node, outer⟩ : Place).Within place → place ∈ places := by
  induction node using Node.owned_induction generalizing outer with
  | step node children definitions =>
    let start : Place := ⟨node, outer⟩
    obtain ⟨owned, howned, listed⟩ := exists_list_of_nodes
      (R := fun child place => (⟨child, start.inner⟩ : Place).Within place) node.children
      fun child mem => children child mem start.inner
    obtain ⟨declared, hdeclared, listed'⟩ := exists_list_of_nodes
      (R := fun child place => (⟨child, start.inner⟩ : Place).Within place)
      (node.definitions.map Prod.snd) fun child mem => by
        obtain ⟨entry, hentry, rfl⟩ := List.mem_map.mp mem
        exact definitions entry hentry start.inner
    refine ⟨start :: (owned ++ declared), ?_, fun place within => ?_⟩
    · have := node.sizeNamed_definitions_le
      rw [Schema.sizeNamed_eq] at this
      rw [List.length_cons, List.length_append, node.size_eq]
      omega
    · rcases Relation.ReflTransGen.cases_head within with rfl | ⟨next, owns, rest⟩
      · exact List.mem_cons_self
      · refine List.mem_cons_of_mem _ (List.mem_append.mpr ?_)
        cases owns with
        | child mem => exact .inl (listed _ mem place rest)
        | definition mem => exact .inr (listed' _ (List.mem_map_of_mem mem) place rest)

/-- No more places can be met than a schema and a context have size: they are written there. -/
theorem exists_list_reaches (context : Context) (root : Node) :
    ∃ places : List Place, places.length ≤ root.size + Schema.sizeNamed context ∧
      ∀ place, root.place.Reaches context place → place ∈ places := by
  obtain ⟨here, hhere, listed⟩ := exists_list_within root []
  obtain ⟨others, hothers, listed'⟩ := exists_list_of_nodes
    (R := fun schema place => schema.place.Within place) (context.map Prod.snd)
    fun schema _ => exists_list_within schema []
  refine ⟨here ++ others, ?_, fun place reached => List.mem_append.mpr ?_⟩
  · rw [List.length_append, Schema.sizeNamed_eq]
    omega
  · have written : place.WrittenIn context root context.keys := by
      induction reached with
      | refl => exact ⟨root, .inl rfl, .refl⟩
      | tail _ step written =>
        refine written.of_step (fun name _ _ schema found => ?_) step
        exact List.mem_map_of_mem (Entries.mem_of_get? found)
    obtain ⟨schema, rfl | ⟨name, _, found⟩, within⟩ := written
    · exact .inl (listed place within)
    · exact .inr (listed' schema (List.mem_map_of_mem (Entries.mem_of_get? found)) place within)

theorem finite_reaches (context : Context) (root : Node) :
    {place | root.place.Reaches context place}.Finite := by
  obtain ⟨places, _, listed⟩ := exists_list_reaches context root
  exact (List.finite_toSet places).subset listed

theorem ncard_reaches_le (context : Context) (root : Node) :
    {place | root.place.Reaches context place}.ncard ≤ root.size + Schema.sizeNamed context := by
  classical
  obtain ⟨places, few, listed⟩ := exists_list_reaches context root
  have sub : {place | root.place.Reaches context place} ⊆ (places.toFinset : Set Place) :=
    fun place reached => by simpa using listed place reached
  calc {place | root.place.Reaches context place}.ncard
      ≤ (places.toFinset : Set Place).ncard :=
        Set.ncard_le_ncard sub (Finset.finite_toSet _)
    _ = places.toFinset.card := Set.ncard_coe_finset _
    _ ≤ places.length := List.toFinset_card_le places
    _ ≤ root.size + Schema.sizeNamed context := few

/-! ### What is ahead -/

/-- The places to which alternatives and references lead from a place. -/
def ahead (context : Context) (place : Place) : Set Place :=
  {target | Relation.TransGen (Idles context) place target}

/-- The places with a default that can be met from a place. -/
def defaultsAhead (context : Context) (place : Place) : Set Place :=
  {target | place.Reaches context target ∧ target.node.default?.isSome}

variable {root : Node} {place target : Place}

theorem ahead_subset (reached : root.place.Reaches context place) :
    place.ahead context ⊆ {place | root.place.Reaches context place} := by
  intro target h
  have steps : Relation.TransGen (Step context) place target :=
    Relation.TransGen.mono (fun _ _ idle => idle.step) _ _ h
  exact reached.trans steps.to_reflTransGen

theorem defaultsAhead_subset (reached : root.place.Reaches context place) :
    place.defaultsAhead context ⊆ {place | root.place.Reaches context place} :=
  fun _ h => reached.trans h.1

/-- Fewer places are ahead after a step at which the value stays as it is. -/
theorem ncard_ahead_lt (consumes : root.place.Consumes context)
    (reached : root.place.Reaches context place) (idle : place.Idles context target) :
    (target.ahead context).ncard < (place.ahead context).ncard := by
  have finite := (finite_reaches context root).subset (ahead_subset reached)
  refine Set.ncard_lt_ncard ⟨fun _ h => .head idle h, fun all => ?_⟩ finite
  exact consumes.idle target (reached.tail idle.step) (all (.single idle))

theorem ncard_defaultsAhead_le (reached : root.place.Reaches context place)
    (step : place.Step context target) :
    (target.defaultsAhead context).ncard ≤ (place.defaultsAhead context).ncard := by
  have finite := (finite_reaches context root).subset (defaultsAhead_subset reached)
  exact Set.ncard_le_ncard (fun _ h => ⟨.head step h.1, h.2⟩) finite

/-- Fewer defaults are ahead after a step away from a place with a default. -/
theorem ncard_defaultsAhead_lt (consumes : root.place.Consumes context)
    (reached : root.place.Reaches context place) (default : place.node.default?.isSome)
    (step : place.Step context target) :
    (target.defaultsAhead context).ncard < (place.defaultsAhead context).ncard := by
  have finite := (finite_reaches context root).subset (defaultsAhead_subset reached)
  refine Set.ncard_lt_ncard ⟨fun _ h => ⟨.head step h.1, h.2⟩, fun all => ?_⟩ finite
  exact consumes.default place reached default (.head' step (all ⟨.refl, default⟩).1)

end Place

/-- A node sees a value as it is, or as a missing one. -/
theorem Node.seen_cases (node : Node) (value : Json) :
    node.seen value = .null ∨ node.seen value = value := by
  unfold Node.seen
  split
  · exact .inr rfl
  · split
    · exact .inl rfl
    · exact .inr rfl
  · exact .inr rfl

/-- A node sees the value itself or its default, neither of which is null. -/
theorem Node.cases_of_present {node : Node} {value seen : Json}
    (present : node.present value = .ok seen) :
    ¬ seen.isNull ∧ (seen = value ∨ node.default? = some seen) := by
  have same := node.seen_cases value
  by_cases missing : (node.seen value).isNull
  · cases found : node.default? with
    | none => by_cases required : node.options.required <;>
        simp [Node.present, missing, required, found] at present
    | some default =>
      have given : ¬ default.isNull := by
        simpa using (Option.filter_eq_some_iff.mp found).2
      have same : seen = default := by
        by_cases required : node.options.required
        · simp [Node.present, missing, required] at present
        · by_cases accepted : node.kind.accepts default
          · simpa [Node.present, missing, required, found, accepted, eq_comm] using present
          · simp [Node.present, missing, required, found, accepted] at present
      rw [same]
      exact ⟨given, .inr rfl⟩
  · have found : seen = node.seen value := by
      by_cases accepted : node.kind.accepts (node.seen value)
      · simpa [Node.present, missing, accepted, eq_comm] using present
      · simp [Node.present, missing, accepted] at present
    rcases same with null | same
    · rw [null] at missing
      exact absurd rfl missing
    · rw [found]
      exact ⟨missing, .inl same⟩

namespace Place

/-- What a check may have to do apart from defaults. -/
noncomputable def effort (context : Context) (limit : Nat) (place : Place) (value : Json) : Nat :=
  value.height * (limit + 1) + (place.ahead context).ncard

section Effort

variable {root : Node} {place target : Place} {seen value : Json} {limit height : Nat}
  (consumes : root.place.Consumes context)
  (hlimit : ∀ place, root.place.Reaches context place → (place.ahead context).ncard ≤ limit)
  (reached : root.place.Reaches context place)

include consumes reached in
theorem effort_lt_of_idles (idle : place.Idles context target) (fits : value.height ≤ seen.height) :
    target.effort context limit value < place.effort context limit seen := by
  have fewer := ncard_ahead_lt consumes reached idle
  have less := Nat.mul_le_mul_right (limit + 1) fits
  unfold effort
  omega

include hlimit reached in
theorem effort_lt_of_part (step : place.Step context target) (below : value.Below seen)
    (given : ¬ seen.isNull) :
    target.effort context limit value < place.effort context limit seen := by
  have few := hlimit target (reached.tail step)
  have less := Nat.mul_le_mul_right (limit + 1) (below.height_lt given)
  rw [Nat.succ_mul] at less
  unfold effort
  omega

include consumes hlimit reached in
theorem effort_lt_of_asks (given : ¬ seen.isNull) (asks : place.Asks context seen target value) :
    target.effort context limit value < place.effort context limit seen := by
  cases asks with
  | whole idle => exact effort_lt_of_idles consumes reached idle (Nat.le_refl _)
  | part step below => exact effort_lt_of_part hlimit reached step below given

include hlimit reached in
theorem effort_lt (fits : value.height ≤ height) :
    place.effort context limit value < (height + 1) * (limit + 1) := by
  have few := hlimit place reached
  have less := Nat.mul_le_mul_right (limit + 1) fits
  rw [Nat.succ_mul]
  unfold effort
  omega

end Effort

/-- Traversals that are not cut off. -/
abbrev uncut (σ : Type) : Simulation σ σ := keeps σ (fun _ => True) fun fault => fault ≠ .exhausted

variable {root : Node} {place : Place} {value : Json} {limit height : Nat}

/-- A check ends within a bound if there is less to do, counting every default ahead as much as the
highest value that can turn up. -/
theorem check_ends (consumes : root.place.Consumes context)
    (hlimit : ∀ place, root.place.Reaches context place → (place.ahead context).ncard ≤ limit)
    (hheight : ∀ place, root.place.Reaches context place → ∀ default ∈ place.node.default?,
      default.height ≤ height)
    {fuel : Nat} (reached : root.place.Reaches context place)
    (fits : value.height ≤ height)
    (enough : (place.defaultsAhead context).ncard * ((height + 1) * (limit + 1)) +
      place.effort context limit value < fuel) :
    (uncut σ).check (fun _ _ => True)
      (place.node.check fuel value (place.scope (.ofContext context)))
      (place.node.check fuel value (place.scope (.ofContext context))) := by
  induction fuel generalizing place value with
  | zero => omega
  | succ fuel ih =>
    refine (uncut σ).checkWith_asked (serves_keeps fun _ _ h => by cases h) value
      fun seen present target part asks => ?_
    obtain ⟨given, origin⟩ := Node.cases_of_present present
    have less := effort_lt_of_asks consumes hlimit reached given asks
    have fitsSeen : seen.height ≤ height := by
      rcases origin with rfl | default
      · exact fits
      · exact hheight place reached seen default
    have fitsPart : part.height ≤ height := by
      cases asks with
      | whole idle => exact fitsSeen
      | part step below => exact Nat.le_trans (Nat.le_of_lt (below.height_lt given)) fitsSeen
    refine ih (reached.tail asks.step) fitsPart ?_
    rcases origin with rfl | default
    · have ahead := Nat.mul_le_mul_right ((height + 1) * (limit + 1))
        (ncard_defaultsAhead_le reached asks.step)
      omega
    · have fewer : (target.defaultsAhead context).ncard + 1 ≤ (place.defaultsAhead context).ncard :=
        ncard_defaultsAhead_lt consumes reached (by rw [default]; rfl) asks.step
      have ahead := Nat.mul_le_mul_right ((height + 1) * (limit + 1)) fewer
      have small := effort_lt hlimit reached fitsSeen
      rw [Nat.add_mul, Nat.one_mul] at ahead
      omega

/-- If a schema consumes its input, the validation of every value comes to an end. -/
theorem validate_ends (consumes : root.place.Consumes context) (value : Json) :
    ∃ bound, ∀ more ≥ bound, ∀ s : σ,
      (root.place.validate more (.ofContext context) value s).1 ≠ .error .exhausted := by
  have finite := finite_reaches context root
  obtain ⟨limit, hlimit⟩ := (finite.image fun place => (place.ahead context).ncard).bddAbove
  obtain ⟨highest, hhighest⟩ :=
    (finite.image fun place => (place.node.default?.map Json.height).getD 0).bddAbove
  have few (place : Place) (reached : root.place.Reaches context place) :
      (place.ahead context).ncard ≤ limit := hlimit (Set.mem_image_of_mem _ reached)
  have low (place : Place) (reached : root.place.Reaches context place) (default : Json)
      (found : default ∈ place.node.default?) : default.height ≤ max highest value.height := by
    have := hhighest (Set.mem_image_of_mem _ reached)
    simp only [Option.mem_def.mp found, Option.map_some, Option.getD_some] at this
    omega
  let work : Nat := (root.place.defaultsAhead context).ncard *
    ((max highest value.height + 1) * (limit + 1)) + root.place.effort context limit value
  refine ⟨work + 1, fun more enough s cut => ?_⟩
  have ends := (uncut σ).run_trial (check_ends consumes few low .refl (Nat.le_max_right _ _)
    (Nat.lt_of_succ_le enough))
  exact (ends s trivial).2.2 _ cut rfl

end Place

end SchemaCast
