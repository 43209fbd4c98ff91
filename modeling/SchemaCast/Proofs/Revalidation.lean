import SchemaCast.Proofs.CastEnds
import SchemaCast.Proofs.Renewal
import SchemaCast.Proofs.Termination
import SchemaCast.Schema.Build

/-!
# Cast forms are valid again

Where only plain nodes are met, what a valid value is cast to is valid again. The cast form may be
tried by other alternatives than the value was and may meet places that the value has not met, so
that its validation need not go the way of the first one; it only has to come to the same end, and
to some end if the schema consumes its input.
-/
namespace SchemaCast

variable {σ : Type} {context : Context}

/-- No hash that is written in a schema declares a property twice: properties are added by name. -/
def Node.DeclaresOnce (schema : Node) : Prop :=
  ∀ place, schema.place.Within place → ∀ rules, place.node.kind = .hash rules →
    (rules.properties.map Prod.fst).Nodup

theorem HashRules.nodup_property {rules : HashRules}
    (once : (rules.properties.map Prod.fst).Nodup) (name : String) (node : Node) :
    ((rules.property name node).properties.map Prod.fst).Nodup :=
  Entries.nodup_keys_insert once name (node.named name)

theorem Covers.written_of_reaches {root : Node} {names : List String}
    (covers : Covers context root names) {place : Place}
    (reached : root.place.Reaches context place) : place.WrittenIn context root names := by
  induction reached with
  | refl => exact ⟨root, .inl rfl, .refl⟩
  | tail _ step written => exact covers.written_of_step written step

namespace Place

/-- A place that can be met without passing a `not`. -/
def Exposes (context : Context) : Place → Place → Prop := Relation.ReflTransGen (Opens context)

/-- Every include that can be met leads to a hash, if it leads anywhere. -/
def IncludesHashes (context : Context) (root : Place) : Prop :=
  ∀ place, root.Reaches context place → ∀ rules, place.node.kind = .hash rules →
    ∀ name ∈ rules.includes, ∀ target, context.place? place.inner name = some target →
      ∃ targetRules, target.node.kind = .hash targetRules

variable {place : Place} {bound depth : Nat} {value : Json}

theorem Exposes.reaches {root : Place} (exposed : root.Exposes context place) :
    root.Reaches context place :=
  Relation.ReflTransGen.mono (fun _ _ opens => opens.1) _ _ exposed

theorem AcceptsBy.satisfiesWithin (h : place.AcceptsBy context bound value)
    (enough : bound ≤ depth) : place.SatisfiesWithin context depth value := by
  obtain ⟨log, hlog, empty⟩ := h
  have told : (place.node.check bound value
      (place.scope (.ofContext context : Resolver Unit))).Tells (fun _ => True)
      (place.SatisfiesWithin context depth value) := tells_check bound enough place value
  exact ((told.trial () trivial).2.1 log hlog).mp empty

/-- If only plain nodes and regular hashes are met, an accepted value is cast within the bound of
the validation to one that satisfies the place. -/
theorem AcceptsBy.renews_cast {root : Place}
    (plain : ∀ used, root.Exposes context used → used.node.Plain)
    (regular : ∀ used, root.Exposes context used → ∀ rules, used.node.kind = .hash rules →
      rules.Regular context used)
    (exposed : root.Exposes context place) (enough : bound ≤ depth)
    (h : place.AcceptsBy context bound value) :
    (place.cast bound (.ofContext context : Resolver σ) value).Holds (fun _ => True)
      (fun _ => False) (place.Renews (SatisfiesWithin context depth) value) := by
  induction bound generalizing place value depth with
  | zero => obtain ⟨log, hlog, _⟩ := h; cases hlog
  | succ bound ih =>
    obtain ⟨depth, rfl⟩ : ∃ n, depth = n + 1 := ⟨depth - 1, by omega⟩
    have met : place.Meets context (AcceptsBy context bound) value :=
      h.meets (tells_acceptsBy bound)
    have still : place.SatisfiesWithin context (depth + 1) value := h.satisfiesWithin enough
    have tried (present : place.node.present value = .ok value) (combinator : Combinator)
        (alternatives : List Node) (blankAsNull : Bool)
        (kind : place.node.kind = .combination combinator alternatives blankAsNull) (node : Node)
        (mem : node ∈ alternatives) :
        (Check.trial (node.check bound value
          ⟨(.ofContext context : Resolver σ), place.inner⟩)).Holds (fun _ => True) (fun _ => False)
          fun log => log.isEmpty ↔ AcceptsBy context bound ⟨node, place.inner⟩ value := by
      have explored : place.Explored context bound value := explored h.endsBy present
      have ends := explored.ends combinator alternatives blankAsNull kind node mem
      have holds := (ends.holds_validate (σ := σ) bound).and_gives
        (tells_acceptsBy bound ⟨node, place.inner⟩ value).trial
      exact (holds.faults fun fault hfault => Nat.lt_irrefl bound hfault.2).imp
        fun log hlog => hlog.2
    exact renews_castWith (fun target opens value accepts => ih (exposed.tail opens)
      (Nat.le_of_succ_le_succ enough) accepts) (regular place exposed) (plain place exposed) tried
      met still

end Place

namespace Covers

variable {root : Node} {names : List String} {place : Place}

/-- The hashes that are met in a covered schema are regular. -/
theorem regular (covers : Covers context root names)
    (includes : root.place.IncludesHashes context)
    (plain : ∀ used, root.place.Exposes context used → used.node.Plain)
    (once : root.DeclaresOnce)
    (once' : ∀ name schema, context.get? name = some schema → schema.DeclaresOnce)
    (exposed : root.place.Exposes context place) {rules : HashRules}
    (kind : place.node.kind = .hash rules) : rules.Regular context place := by
  have distinct {place : Place} (written : place.WrittenIn context root names) {rules : HashRules}
      (kind : place.node.kind = .hash rules) : (rules.properties.map Prod.fst).Nodup := by
    obtain ⟨schema, rfl | ⟨name, _, found⟩, within⟩ := written
    · exact once place within rules kind
    · exact once' name schema found place within rules kind
  have written : place.WrittenIn context root names := covers.written_of_reaches exposed.reaches
  refine ⟨distinct written kind, fun name listed => ?_, fun target step => ?_⟩
  · have referenced : name ∈ place.node.kind.referenced := by rw [kind]; exact listed
    obtain ⟨target, leads⟩ := covers.leads written referenced
    obtain ⟨targetRules, hash⟩ := includes place exposed.reaches rules kind name listed target leads
    have targetWritten : target.WrittenIn context root names :=
      written.of_place? (fun undeclared _ _ =>
        (covers place written name ⟨referenced, undeclared⟩).1) leads
    exact ⟨target, targetRules.properties, ⟨leads, targetRules, hash, rfl⟩,
      distinct targetWritten hash⟩
  · exact (plain target (exposed.tail ⟨step, by simp [kind]⟩)).outputName

/-- Where names lead somewhere and includes to hashes, no validation breaks off. -/
theorem not_broken (covers : Covers context root names)
    (includes : root.place.IncludesHashes context) {fuel : Nat} {value : Json} {s : σ}
    (error : SchemaError) :
    (root.place.validate fuel (.ofContext context) value s).1 ≠ .error (.schema error) := by
  intro broken
  obtain ⟨used, reached, deadEnd⟩ := Place.canBreak_of_validate broken
  have resolved := covers.not_unresolved (covers.written_of_reaches reached) deadEnd
  cases deadEnd with
  | unresolved => exact resolved _ rfl
  | notHash kind listed leads other =>
    obtain ⟨targetRules, hash⟩ := includes used reached _ kind _ listed _ leads
    exact other targetRules hash

end Covers

/-- Where only plain nodes are met, a valid value has a cast form, and its validation comes to an
empty log whenever it comes to an end: it never breaks off, and it finds nothing. It does come to an
end if the schema consumes its input. A schema that does not may hold places without an end which
the value never meets and its cast form does, such as those of the items of an array that the value
spells as a text. -/
theorem validate_cast_of_valid {root : Node} {names : List String} {fuel : Nat} {value : Json}
    {log : ErrorLog} {s : σ}
    (external : (root.externalNames (.ofContext context) s).1 = .ok names)
    (includes : root.place.IncludesHashes context)
    (plain : ∀ used, root.place.Exposes context used → used.node.Plain)
    (once : root.DeclaresOnce)
    (once' : ∀ name schema, context.get? name = some schema → schema.DeclaresOnce)
    (valid : (root.place.validate fuel (.ofContext context) value s).1 = .ok log)
    (empty : log.isEmpty) :
    ∃ output,
      (∀ more ≥ fuel, ∀ t : σ, (root.place.cast more (.ofContext context) value t).1 = .ok output) ∧
      (∀ more (t : σ), (root.place.validate more (.ofContext context) output t).1 ≠
        .error .exhausted → ∃ log,
          (root.place.validate more (.ofContext context) output t).1 = .ok log ∧ log.isEmpty) ∧
      (root.place.Consumes context → ∃ bound, ∀ more ≥ bound, ∀ t : σ, ∃ log,
        (root.place.validate more (.ofContext context) output t).1 = .ok log ∧ log.isEmpty) := by
  have covers : Covers context root names := covers_externalNames external
  have accepts : root.place.AcceptsBy context fuel value := Place.acceptsBy_of_validate valid empty
  have renews (depth : Nat) (enough : fuel ≤ depth) :
      (root.place.cast fuel (.ofContext context : Resolver σ) value).Holds (fun _ => True)
        (fun _ => False) (root.place.Renews (Place.SatisfiesWithin context depth) value) :=
    accepts.renews_cast plain (fun used exposed rules kind =>
      covers.regular includes plain once once' exposed kind) .refl enough
  rcases hc : root.place.cast fuel (.ofContext context) value s with ⟨fault | output, s'⟩
  · exact ((renews fuel (Nat.le_refl fuel) s trivial).2.2 fault (by rw [hc])).elim
  have satisfies : root.place.Satisfies context output :=
    ⟨fuel, fun depth enough => ((renews depth enough s trivial).2.1 output (by rw [hc])).satisfied⟩
  have again (more : Nat) (t : σ)
      (ended : (root.place.validate more (.ofContext context) output t).1 ≠ .error .exhausted) :
      ∃ log, (root.place.validate more (.ofContext context) output t).1 = .ok log ∧
        log.isEmpty := by
    rcases hv : (root.place.validate more (.ofContext context) output t).1 with fault | log'
    · cases fault with
      | exhausted => exact absurd hv ended
      | schema error => exact absurd hv (covers.not_broken includes error)
    · exact ⟨log', rfl, (Place.isEmpty_iff_satisfies hv).mpr satisfies⟩
  refine ⟨output, fun more enough t => ?_, again, fun consumes => ?_⟩
  · rw [root.place.cast_state more value t s,
      root.place.cast_of_le value enough (by rw [hc]; intro h; cases h), hc]
  · obtain ⟨bound, ends⟩ := Place.validate_ends (σ := σ) consumes output
    exact ⟨bound, fun more enough t => again more t (ends more enough t)⟩

/-- Texts become numbers, also under a key that comes from an include, and the keys change places.
The text is also a symbol, the number is not. -/
theorem validate_cast_of_valid_texts :
    let count : Node := ⟨{}, .integer { castText := true }⟩
    let word : Node := ⟨{}, .symbol⟩
    let choice : Node := ⟨{}, .combination .anyOf [count, word] false⟩
    let list : Node := ⟨{}, .array { items := .list count }⟩
    let lists : Node := ⟨{}, .hash { properties := [("l", list)] }⟩
    let root : Node := ⟨{}, .hash { properties := [("n", choice)], includes := ["lists"] }⟩
    let context : Context := [("lists", lists)]
    let value : Json := .obj [("l", .arr [.str "1"]), ("n", .str "5")]
    let output : Json := .obj [("n", .int 5), ("l", .arr [.int 1])]
    (root.place.cast 4 (.ofContext context : Resolver Unit) value ()).1 = .ok output ∧
      ∃ log, (root.place.validate 4 (.ofContext context : Resolver Unit) output ()).1 = .ok log ∧
        log.isEmpty := by
  intro count word choice list lists root context value output
  have external : (root.externalNames (.ofContext context) ()).1 = .ok ["lists"] := rfl
  have valid : (root.place.validate 4 (.ofContext context : Resolver Unit) value ()).1 = .ok {} :=
    rfl
  let nodes : List Node := [root, lists, choice, list, count, word]
  have closed (node : Node) (mem : node ∈ nodes) :
      node.children ⊆ nodes ∧ node.definitions = [] := by
    simp only [nodes, List.mem_cons, List.not_mem_nil, or_false] at mem
    rcases mem with rfl | rfl | rfl | rfl | rfl | rfl <;>
      exact ⟨by simp [nodes, Node.children, Node.ofPolicy, root, lists, choice, list, count, word],
        rfl⟩
  have found (name : String) (schema : Node) (h : context.get? name = some schema) :
      schema = lists :=
    congrArg Prod.snd (List.mem_singleton.mp (Entries.mem_of_get? h))
  have plain (node : Node) (mem : node ∈ nodes) : node.Plain := by
    simp only [nodes, List.mem_cons, List.not_mem_nil, or_false] at mem
    rcases mem with rfl | rfl | rfl | rfl | rfl | rfl <;>
      exact ⟨rfl, rfl, rfl, by simp [Kind.Plain, root, lists, choice, list, count, word]⟩
  have once (node : Node) (mem : node ∈ nodes) (rules : HashRules)
      (kind : node.kind = .hash rules) : (rules.properties.map Prod.fst).Nodup := by
    simp only [nodes, List.mem_cons, List.not_mem_nil, or_false] at mem
    rcases mem with rfl | rfl | rfl | rfl | rfl | rfl <;> cases kind <;> simp
  have written (used : Place) (h : root.place.Reaches context used) :
      used.node ∈ nodes ∧ used.outer = [] :=
    Place.mem_of_reaches closed (by simp [context, nodes]) List.mem_cons_self h
  have includes : root.place.IncludesHashes context := by
    intro used h rules kind name listed target leads
    obtain ⟨mem, outermost⟩ := written used h
    have none : used.inner = [] := by
      simp [Place.inner, External.stackBelow, (closed _ mem).2, outermost]
    rw [none] at leads
    obtain ⟨schema, h, rfl⟩ := Option.map_eq_some_iff.mp leads
    exact ⟨_, by rw [found name schema h]⟩
  obtain ⟨result, casts, again, _⟩ := validate_cast_of_valid (s := ()) external includes
    (fun used exposed => plain _ (written used exposed.reaches).1)
    (fun used within => once _ (within.mem_of_closed closed (by simp [nodes, Node.place]) rfl).1)
    (fun name schema h used within => by
      cases found name schema h
      exact once _ (within.mem_of_closed closed (by simp [nodes, Node.place]) rfl).1)
    valid rfl
  have cast : (root.place.cast 4 (.ofContext context : Resolver Unit) value ()).1 = .ok output :=
    rfl
  have same : result = output := by
    have := (casts 4 (Nat.le_refl 4) ()).symm.trans cast
    exact Except.ok.inj this
  rw [same] at again
  exact ⟨cast, again 4 () (by intro cut; cases cut)⟩

/-- A text that spells a list of numbers is no array, so that the second alternative has nothing to
do with it. The list does go through the second alternative, where each element is referred to a
schema that stands for itself: its validation never comes to an end. -/
theorem validate_cast_of_valid_loop :
    let numbers : Node := ⟨{}, .array { items := .list ⟨{}, .integer {}⟩, parseText := true }⟩
    let loop : Node := ⟨{}, .reference "loop"⟩
    let endless : Node := ⟨{}, .array { items := .list loop }⟩
    let root : Node := ⟨{}, .combination .anyOf [numbers, endless] false⟩
    let context : Context := [("loop", loop)]
    ((root.externalNames (.ofContext context : Resolver Unit) ()).1 = .ok ["loop"] ∧
      root.place.IncludesHashes context ∧
      (∀ used, root.place.Exposes context used → used.node.Plain) ∧ root.DeclaresOnce ∧
      ∀ name schema, context.get? name = some schema → schema.DeclaresOnce) ∧
    (root.place.validate 4 (.ofContext context : Resolver Unit) (.str "[1]") ()).1 = .ok {} ∧
    (root.place.cast 4 (.ofContext context : Resolver Unit) (.str "[1]") ()).1 =
      .ok (.arr [.int 1]) ∧
    ∀ fuel, (root.place.validate fuel (.ofContext context : Resolver Unit) (.arr [.int 1]) ()).1 =
      .error .exhausted := by
  intro numbers loop endless root context
  have external : (root.externalNames (.ofContext context : Resolver Unit) ()).1 = .ok ["loop"] :=
    rfl
  let nodes : List Node := [root, numbers, ⟨{}, .integer {}⟩, endless, loop]
  have closed (node : Node) (mem : node ∈ nodes) :
      node.children ⊆ nodes ∧ node.definitions = [] := by
    simp only [nodes, List.mem_cons, List.not_mem_nil, or_false] at mem
    rcases mem with rfl | rfl | rfl | rfl | rfl <;>
      exact ⟨by simp [nodes, Node.children, root, numbers, endless, loop], rfl⟩
  have plain (node : Node) (mem : node ∈ nodes) :
      node.Plain ∧ ∀ rules, node.kind ≠ .hash rules := by
    simp only [nodes, List.mem_cons, List.not_mem_nil, or_false] at mem
    rcases mem with rfl | rfl | rfl | rfl | rfl <;>
      exact ⟨⟨rfl, rfl, rfl, by simp [Kind.Plain, root, numbers, endless, loop]⟩,
        fun rules kind => by cases kind⟩
  have flat (schema : Node) (mem : schema ∈ nodes) : schema.DeclaresOnce := by
    intro used within rules kind
    exact absurd kind ((plain _ (within.mem_of_closed closed mem rfl).1).2 rules)
  have written (used : Place) (h : root.place.Reaches context used) : used.node ∈ nodes :=
    (Place.mem_of_reaches closed (by simp [context, nodes]) List.mem_cons_self h).1
  have includes : root.place.IncludesHashes context := fun used h rules kind =>
    absurd kind ((plain _ (written used h)).2 rules)
  have once (name : String) (schema : Node) (h : context.get? name = some schema) :
      schema.DeclaresOnce := by
    have same : (name, schema) = ("loop", loop) := List.mem_singleton.mp (Entries.mem_of_get? h)
    cases same
    exact flat loop (by simp [nodes])
  refine ⟨⟨external, includes, fun used exposed => (plain _ (written used exposed.reaches)).1,
    flat root List.mem_cons_self, once⟩, rfl, rfl, fun fuel => ?_⟩
  rcases fuel with _ | _ | _ | fuel
  · rfl
  · rfl
  · rfl
  · let scope : Scope Unit := ⟨.ofContext context, []⟩
    have first : Check.within (.index 0) (loop.check (fuel + 1) (.int 1) scope) ({}, ()) =
        (.error .exhausted, (({} : ErrorLog).enter (.index 0)).leave, ()) :=
      Check.within_apply (Node.check_of_circular rfl _ rfl _ _)
    have second : Check.trial (endless.check (fuel + 2) (.arr [.int 1]) scope) () =
        (.error .exhausted, ()) :=
      Check.trial_apply ((Run.bind_ok rfl).trans ((Run.bind_ok rfl).trans
        (Run.bind_error (Run.bind_error first))))
    have trials : Combinator.trials (Node.check (fuel + 2)) (.arr [.int 1]) scope [numbers, endless]
        () = (.error .exhausted, ()) :=
      (Run.bind_ok rfl).trans (Run.bind_error (Run.bind_error second))
    have whole : root.check (fuel + 3) (.arr [.int 1]) scope ({}, ()) =
        (.error .exhausted, {}, ()) :=
      (Run.bind_ok rfl).trans (Run.bind_error (Check.ofRun_apply {} trials))
    exact congrArg Prod.fst (Check.trial_apply whole)

end SchemaCast
