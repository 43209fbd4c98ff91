import SchemaCast.Proofs.Agreement.Casting
import SchemaCast.Proofs.CastDescent
import SchemaCast.Proofs.Coverage

/-!
# Inlining a reference

A plain reference to a schema of the context may be replaced by that schema, wherever it stands in a
schema but as the body of a definition: validations that end have the same outcome and casts that
end the same result. Below the replaced reference the definitions around it are in force, which the
schema does not see in the context; it needs no name that they declare.
-/
namespace SchemaCast

variable {σ : Type} {context : Context}

/-- A reference with no options but the key under which it stands. -/
def Node.plainReference (name : Option String) (target : String) : Node :=
  ⟨{ name }, .reference target⟩

/-- A node under another key. -/
def Node.underName (node : Node) (name : Option String) : Node :=
  { node with options := { node.options with name } }

theorem Node.underName_self (node : Node) : node.underName node.options.name = node := by
  obtain ⟨⟨_, _, _, _, _, _, _, _, _, _⟩, _⟩ := node
  rfl

/-- A schema may take the place of a plain reference within definitions: the name leads to it in the
context, it is an optional value that a hash writes under its own key, and the definitions declare
no name that it needs from the context. -/
structure Node.MayReplace (context : Context) (stack : List Definitions) (target : String)
    (schema : Node) : Prop where
  undeclared : lookupLocal target stack = none
  found : context.get? target = some schema
  optional : schema.options.required = false
  noDefault : schema.default? = none
  outputName : schema.options.outputName = none
  requireKey : schema.options.requireKey = false
  uncaptured : ∀ needed ∈ External.collect [] [] schema, lookupLocal needed stack = none

/-- Kinds that differ in one node inside. -/
inductive Kind.Replaces (node node' : Node) : Kind → Kind → Prop where
  | property {rules : HashRules} {before after : List (String × Node)} {key : String} :
      Replaces node node' (.hash { rules with properties := before ++ (key, node) :: after })
        (.hash { rules with properties := before ++ (key, node') :: after })
  | pattern {rules : HashRules} {before after : List (Pattern × Node)} {pattern : Pattern} :
      Replaces node node'
        (.hash { rules with patternProperties := before ++ (pattern, node) :: after })
        (.hash { rules with patternProperties := before ++ (pattern, node') :: after })
  | additional {rules : HashRules} :
      Replaces node node' (.hash { rules with additional := .schema node })
        (.hash { rules with additional := .schema node' })
  | item {rules : ArrayRules} :
      Replaces node node' (.array { rules with items := .list node })
        (.array { rules with items := .list node' })
  | position {rules : ArrayRules} {before after : List Node} :
      Replaces node node' (.array { rules with items := .tuple (before ++ node :: after) })
        (.array { rules with items := .tuple (before ++ node' :: after) })
  | tail {rules : ArrayRules} :
      Replaces node node' (.array { rules with additional := some (.schema node) })
        (.array { rules with additional := some (.schema node') })
  | contains {rules : ArrayRules} :
      Replaces node node' (.array { rules with contains := some node })
        (.array { rules with contains := some node' })
  | alternative {combinator : Combinator} {before after : List Node} {blankAsNull : Bool} :
      Replaces node node' (.combination combinator (before ++ node :: after) blankAsNull)
        (.combination combinator (before ++ node' :: after) blankAsNull)

mutual

/-- A node within definitions, and the node with one plain reference in it replaced by the schema of
the context to which it leads. -/
inductive Node.Inlines (context : Context) : List Definitions → Node → Node → Prop where
  | here {stack : List Definitions} {name : Option String} {target : String} {schema : Node}
      (h : Node.MayReplace context stack target schema) :
      Inlines context stack (.plainReference name target) (schema.underName name)
  | inside {stack : List Definitions} {node node' : Node}
      (h : Node.InlinesInside context stack node node') : Inlines context stack node node'

/-- The same, where the reference is not the node itself. In the body of a definition it is not the
body itself either. -/
inductive Node.InlinesInside (context : Context) : List Definitions → Node → Node → Prop where
  | child {stack : List Definitions} {options : NodeOptions} {kind kind' : Kind} {node node' : Node}
      (h : Node.Inlines context (External.stackBelow options.definitions stack) node node')
      (replaces : Kind.Replaces node node' kind kind') :
      InlinesInside context stack ⟨options, kind⟩ ⟨options, kind'⟩
  | definition {stack : List Definitions} {options : NodeOptions} {kind : Kind}
      {before after : Definitions} {key : String} {node node' : Node}
      (h : Node.InlinesInside context ((before ++ (key, node) :: after) :: stack) node node') :
      InlinesInside context stack
        ⟨{ options with definitions := before ++ (key, node) :: after }, kind⟩
        ⟨{ options with definitions := before ++ (key, node') :: after }, kind⟩

end

/-! ### Places beside and around the replaced reference -/

/-- Nodes that one occurrence below a definition tells apart, if anything does. -/
def Node.SameDefinition (context : Context) (stack : List Definitions) (node node' : Node) : Prop :=
  node = node' ∨ Node.InlinesInside context stack node node'

/-- Nodes that one occurrence tells apart, if anything does. -/
def Node.SameOrInlined (context : Context) (stack : List Definitions) (node node' : Node) : Prop :=
  node = node' ∨ Node.Inlines context stack node node'

/-- Definitions around a place, and the definitions that are there after the replacement. -/
inductive Around (context : Context) : List Definitions → List Definitions → Prop where
  | nil : Around context [] []
  | cons {definitions definitions' : Definitions} {stack stack' : List Definitions}
      (same : Entries.Aligned (Node.SameDefinition context (definitions :: stack)) definitions
        definitions') (outer : Around context stack stack') :
      Around context (definitions :: stack) (definitions' :: stack')

/-- Nodes with the same options, but for what the replacement makes of the definitions and of the
nodes inside. -/
structure Node.SameAround (context : Context) (stack : List Definitions) (node node' : Node) :
    Prop where
  options : node'.options = { node.options with definitions := node'.options.definitions }
  definitions : Entries.Aligned
    (Node.SameDefinition context (External.stackBelow node.definitions stack)) node.definitions
    node'.definitions
  kind : node.kind.Alike
    (Node.SameOrInlined context (External.stackBelow node.definitions stack)) node'.kind

theorem Node.sameAround_self (stack : List Definitions) (node : Node) :
    node.SameAround context stack node where
  options := by
    obtain ⟨⟨_, _, _, _, _, _, _, _, _, _⟩, _⟩ := node
    rfl
  definitions := .self fun _ _ => .inl rfl
  kind := Node.alike_self fun _ _ => .inl rfl

section Alike

variable {R : Node → Node → Prop} {node node' : Node}

theorem forall₂_replace {α : Type} {R : α → α → Prop} (self : ∀ a, R a a) {a b : α} (h : R a b)
    (before after : List α) : List.Forall₂ R (before ++ a :: after) (before ++ b :: after) := by
  refine List.rel_append (List.forall₂_same.mpr fun a _ => self a) (.cons h ?_)
  exact List.forall₂_same.mpr fun a _ => self a

theorem aligned_replace (self : ∀ node, R node node) (h : R node node') (key : String)
    (before after : List (String × Node)) :
    Entries.Aligned R (before ++ (key, node) :: after) (before ++ (key, node') :: after) :=
  (Entries.Aligned.self fun _ _ => self _).append (.cons h (.self fun _ _ => self _))

/-- Kinds that differ in one node inside are alike up to that node. -/
theorem Kind.Replaces.alike (self : ∀ node, R node node) (h : R node node') {kind kind' : Kind}
    (replaces : Kind.Replaces node node' kind kind') : kind.Alike R kind' := by
  have patterns (entries : List (Pattern × Node)) :
      List.Forall₂ (Node.SamePattern R) entries entries :=
    List.forall₂_same.mpr fun entry _ => ⟨rfl, self entry.2⟩
  have policy (policy : Policy Node) : Policy.Alike R policy policy :=
    Policy.alike_self fun node _ => self node
  have shape (shape : ItemShape) : ItemShape.Alike R shape shape := by
    cases shape with
    | any => exact .any
    | list item => exact .list (self item)
    | tuple positions => exact .tuple (List.forall₂_same.mpr fun node _ => self node)
  have tail (tail : Option (Policy Node)) : Option.Rel (Policy.Alike R) tail tail :=
    optionRel_self fun found _ => policy found
  have contains (contains : Option Node) : Option.Rel R contains contains :=
    optionRel_self fun node _ => self node
  cases replaces with
  | property => exact .hash (aligned_replace self h _ _ _) (patterns _) (policy _)
  | pattern =>
    refine .hash (.self fun _ _ => self _)
      (forall₂_replace (fun entry => ⟨rfl, self entry.2⟩) ?_ _ _)
      (policy _)
    exact ⟨rfl, h⟩
  | additional => exact .hash (.self fun _ _ => self _) (patterns _) (.schema h)
  | item => exact .array (.list h) (tail _) (contains _)
  | position => exact .array (.tuple (forall₂_replace self h _ _)) (tail _) (contains _)
  | tail => exact .array (shape _) (.some (.schema h)) (contains _)
  | contains => exact .array (shape _) (tail _) (.some h)
  | alternative => exact .combination (forall₂_replace self h _ _)

end Alike

theorem Node.InlinesInside.sameAround {stack : List Definitions} {node node' : Node}
    (h : Node.InlinesInside context stack node node') : node.SameAround context stack node' := by
  cases h with
  | @child _ options kind kind' node node' h replaces =>
    have same : (⟨options, kind⟩ : Node).SameAround context stack ⟨options, kind⟩ :=
      Node.sameAround_self stack _
    exact ⟨same.options, same.definitions, replaces.alike (fun _ => .inl rfl) (.inr h)⟩
  | @definition _ options kind before after key node node' h =>
    refine ⟨rfl, ?_, Node.alike_self fun _ _ => .inl rfl⟩
    have inner : External.stackBelow (before ++ (key, node) :: after) stack =
        (before ++ (key, node) :: after) :: stack := by
      unfold External.stackBelow
      simp
    dsimp only [Node.definitions]
    rw [inner]
    exact aligned_replace (fun _ => .inl rfl) (.inr h) _ _ _

/-! ### Names -/

namespace Around

variable {stack stack' : List Definitions}

theorem inner (around : Around context stack stack') {node node' : Node}
    (same : node.SameAround context stack node') :
    Around context (External.stackBelow node.definitions stack)
      (External.stackBelow node'.definitions stack') := by
  have definitions := same.definitions
  unfold External.stackBelow at definitions ⊢
  generalize node.definitions = all at definitions
  generalize node'.definitions = all' at definitions
  cases definitions with
  | nil => exact around
  | cons head tail => exact .cons (.cons head tail) around

/-- A name is declared before and after the replacement, by nodes of which neither is the replaced
reference. -/
theorem lookupLocal (around : Around context stack stack') (name : String) :
    Option.Rel (fun found found' => Around context found.2 found'.2 ∧
        found.1.SameDefinition context found.2 found'.1)
      (SchemaCast.lookupLocal name stack) (SchemaCast.lookupLocal name stack') := by
  induction around with
  | nil => exact .none
  | @cons definitions definitions' stack stack' same outer ih =>
    have declared := same.get? name
    unfold SchemaCast.lookupLocal
    revert declared
    cases definitions.get? name <;> cases definitions'.get? name <;> rintro ⟨⟩
    · exact ih
    · next h => exact .some ⟨.cons same outer, h⟩

theorem lookupLocal_eq_none (around : Around context stack stack') {name : String}
    (undeclared : SchemaCast.lookupLocal name stack = none) :
    SchemaCast.lookupLocal name stack' = none := by
  have same := around.lookupLocal name
  rw [undeclared] at same
  revert same
  cases SchemaCast.lookupLocal name stack' <;> rintro ⟨⟩
  rfl

end Around

namespace Place

/-- A place, and the place that takes its part after the replacement of a reference that is not the
node itself. -/
structure Beside (context : Context) (place place' : Place) : Prop where
  around : Around context place.outer place'.outer
  same : place.node.SameDefinition context place.outer place'.node

/-- A place of a schema, and the place of the same node when the schema stands in for a reference:
there are more definitions around it. -/
structure Moved (schema : Node) (around : List Definitions) (place place' : Place) : Prop where
  within : schema.place.Within place
  outer : place'.outer = place.outer ++ around
  name : ∃ name, place'.node = place.node.underName name

/-- The place of a node before and after the replacement. -/
inductive Inlined (context : Context) : Place → Place → Prop where
  | beside {place place' : Place} (h : place.Beside context place') : Inlined context place place'
  | moved {place place' : Place} {schema : Node} {around : List Definitions}
      (uncaptured : ∀ needed ∈ External.collect [] [] schema, lookupLocal needed around = none)
      (h : Moved schema around place place') : Inlined context place place'
  | here {stack stack' : List Definitions} {name : Option String} {target : String} {schema : Node}
      (around : Around context stack stack') (h : schema.MayReplace context stack target) :
      Inlined context ⟨.plainReference name target, stack⟩ ⟨schema.underName name, stack'⟩

variable {place place' : Place}

theorem Beside.refl (node : Node) : Beside context ⟨node, []⟩ ⟨node, []⟩ := ⟨.nil, .inl rfl⟩

theorem Beside.sameAround (h : place.Beside context place') :
    place.node.SameAround context place.outer place'.node := by
  rcases h.same with same | inlines
  · rw [← same]
    exact Node.sameAround_self _ _
  · exact inlines.sameAround

theorem Beside.inner (h : place.Beside context place') :
    Around context place.inner place'.inner := h.around.inner h.sameAround

/-- Nodes inside stay where they are, or one of them is the replaced reference. -/
theorem Beside.sameProperty (h : place.Beside context place') {node node' : Node}
    (same : node.SameOrInlined context place.inner node') :
    place.SameProperty (Inlined context) place' node node' := by
  rcases same with rfl | inlines
  · exact ⟨.beside ⟨h.inner, .inl rfl⟩, rfl, rfl⟩
  · cases inlines with
    | here may => exact ⟨.here h.inner may, may.requireKey.symm, may.outputName.symm⟩
    | inside inlines =>
      have options := inlines.sameAround.options
      refine ⟨.beside ⟨h.inner, .inr inlines⟩, ?_, ?_⟩
      · rw [options]
      · rw [options]

theorem Beside.sameOffer (h : place.Beside context place') :
    place.SameOffer (Inlined context) place' :=
  h.sameAround.kind.sameOffer fun _ _ => h.sameProperty

/-- Where a name leads is the same place, up to the replacement. -/
theorem Beside.place? {stack stack' : List Definitions} (around : Around context stack stack')
    (name : String) :
    Option.Rel (Beside context) (context.place? stack name) (context.place? stack' name) := by
  have declared := around.lookupLocal name
  unfold Context.place?
  revert declared
  cases SchemaCast.lookupLocal name stack <;> cases SchemaCast.lookupLocal name stack' <;> rintro ⟨⟩
  · cases context.get? name with
    | none => exact .none
    | some schema => exact .some (Beside.refl schema)
  · next h => exact .some ⟨h.1, h.2⟩

section Moved

variable {schema : Node} {around : List Definitions}

theorem Moved.kind (h : Moved schema around place place') : place'.node.kind = place.node.kind := by
  obtain ⟨name, same⟩ := h.name
  rw [same]
  rfl

theorem Moved.inner (h : Moved schema around place place') :
    place'.inner = place.inner ++ around := by
  obtain ⟨name, same⟩ := h.name
  unfold Place.inner External.stackBelow
  rw [same, h.outer]
  change (if place.node.definitions.isEmpty then _ else _) = _
  split <;> rfl

variable (uncaptured : ∀ needed ∈ External.collect [] [] schema, lookupLocal needed around = none)

include uncaptured in
theorem Moved.sameProperty (h : Moved schema around place place') {node : Node}
    (owned : node ∈ place.node.children) :
    place.SameProperty (Inlined context) place' node node :=
  ⟨.moved uncaptured ⟨h.within.tail (.child owned), h.inner, node.options.name,
    node.underName_self.symm⟩, rfl, rfl⟩

include uncaptured in
theorem Moved.sameOffer (h : Moved schema around place place') :
    place.SameOffer (Inlined context) place' := by
  have alike : place.node.kind.Alike (fun node node' => node = node' ∧ node ∈ place.node.children)
      place'.node.kind := by
    rw [h.kind]
    exact Node.alike_self fun child owned => ⟨rfl, owned⟩
  refine alike.sameOffer fun node node' same => ?_
  obtain ⟨rfl, owned⟩ := same
  exact h.sameProperty uncaptured owned

include uncaptured in
/-- A name that the schema declares leads to a place of the schema. Any other name that it uses is
one that it needs from the context. -/
theorem Moved.place? (h : Moved schema around place place') {name : String}
    (referenced : name ∈ place.node.kind.referenced) :
    Option.Rel (fun target target' => Beside context target target' ∨
        Moved schema around target target')
      (context.place? place.inner name) (context.place? place'.inner name) := by
  unfold Context.place?
  rw [h.inner, lookupLocal_append]
  cases declared : lookupLocal name place.inner with
  | some found =>
    refine .some (.inr ⟨within_of_lookupLocal rfl h.within declared, rfl, ?_⟩)
    exact ⟨found.1.options.name, found.1.underName_self.symm⟩
  | none =>
    have needed : name ∈ External.collect [] [] schema :=
      (External.mem_collect schema).mpr (.inr ⟨place, h.within, referenced, declared⟩)
    dsimp only
    rw [uncaptured name needed]
    cases context.get? name with
    | none => exact .none
    | some other => exact .some (.inl (.refl other))

end Moved

end Place

/-! ### Runs before and after the replacement -/

/-- Entries stay in place, and faults are the same; if the first run is cut off, nothing is known
about the second. -/
def Tolerance.strict : Tolerance where
  free := False
  cut fault := fault = .exhausted
  cut_of_free h := h.elim

section Reference

variable {stack : List Definitions} {name : Option String} {target : String} {fuel : Nat}
  {value : Json}

theorem Node.present_null {node : Node} (optional : node.options.required = false)
    (noDefault : node.default? = none) : node.present .null = .error none := by
  have seen : node.seen .null = .null := by
    unfold seen
    split
    · contradiction
    · rfl
    · rfl
  have null : Json.null.isNull = true := rfl
  simp [present, seen, null, optional, noDefault]

theorem Node.castWith_null {node : Node} (optional : node.options.required = false)
    (noDefault : node.default? = none) (checkNode : NodeCheck σ) (castNode : NodeCast σ)
    (scope : Scope σ) : node.castWith checkNode castNode .null scope = pure .null :=
  (node.castWith_of_present checkNode castNode .null scope).1 (present_null optional noDefault)

/-- A plain reference checks a value that is not missing at the place to which it leads. -/
theorem Node.check_plainReference {found : Place} (leads : context.place? stack target = some found)
    (given : value.isNull = false) :
    (plainReference name target).check (fuel + 1) value
        (⟨.ofContext context, stack⟩ : Scope σ) =
      found.node.check fuel value (found.scope (.ofContext context)) := by
  have present : (plainReference name target).present value = .ok value := by
    simp [plainReference, Node.present, Node.seen, given, Kind.accepts]
  rw [check, checkWith, present]
  change (Check.ofRun ((⟨.ofContext context, stack⟩ : Scope σ).target target) >>= fun found =>
    found.1.check fuel value found.2) = _
  rw [Scope.target_of_leads leads]
  rfl

theorem Node.castTo_plainReference {found : Place}
    (leads : context.place? stack target = some found) (given : value.isNull = false) :
    (plainReference name target).castTo (fuel + 1) value
        (⟨.ofContext context, stack⟩ : Scope σ) =
      found.cast fuel (.ofContext context) value := by
  have seen : (plainReference name target).seen value = value := rfl
  rw [castTo, castWith, seen, given]
  change ((⟨.ofContext context, stack⟩ : Scope σ).target target >>= fun found =>
    found.1.castTo fuel value found.2) = _
  rw [Scope.target_of_leads leads]
  rfl

theorem Node.MayReplace.leads {schema : Node}
    (may : Node.MayReplace context stack target schema) :
    context.place? stack target = some schema.place := by
  unfold Context.place?
  rw [may.undeclared, may.found]
  rfl

/-- The schema in the context, and the schema in the place of the reference. -/
theorem Node.MayReplace.inlined {stack' : List Definitions} (around : Around context stack stack')
    {schema : Node} (may : Node.MayReplace context stack target schema) :
    schema.place.Inlined context ⟨schema.underName name, stack'⟩ :=
  .moved (fun needed mem => around.lookupLocal_eq_none (may.uncaptured needed mem))
    ⟨.refl, rfl, name, rfl⟩

end Reference

namespace Place

variable {place place' : Place}

theorem Beside.matches (h : place.Beside context place') :
    place.Matches Tolerance.strict context (Inlined context) place' := by
  have options := h.sameAround.options
  refine ⟨?_, ?_, ?_, h.sameAround.kind.matches (fun node node' => h.sameProperty)
    (fun rules _ name _ => ?_) (fun rules _ item item' same => ?_) fun name _ => ?_⟩
  · rw [options]
  · unfold Node.default?
    rw [options]
  · rw [options]
  · exact optionRel_imp (fun _ _ => Beside.sameOffer) (Beside.place? h.inner name)
  · rw [same.eq id]
  · exact optionRel_imp (fun _ _ => .beside) (Beside.place? h.inner name)

theorem Moved.matches {schema : Node} {around : List Definitions}
    (uncaptured : ∀ needed ∈ External.collect [] [] schema, lookupLocal needed around = none)
    (h : Moved schema around place place') :
    place.Matches Tolerance.strict context (Inlined context) place' := by
  have alike : place.node.kind.Alike (fun node node' => node = node' ∧ node ∈ place.node.children)
      place'.node.kind := by
    rw [h.kind]
    exact Node.alike_self fun child owned => ⟨rfl, owned⟩
  obtain ⟨name, same⟩ := h.name
  refine ⟨?_, ?_, ?_, alike.matches (fun node node' same => ?_)
    (fun rules kind name listed => ?_) (fun rules _ item item' same => ?_) fun name kind => ?_⟩
  · rw [same]; rfl
  · rw [same]; rfl
  · rw [same]; rfl
  · obtain ⟨rfl, owned⟩ := same
    exact h.sameProperty uncaptured owned
  · refine optionRel_imp (fun _ _ reached => ?_) (h.place? uncaptured (by rw [kind]; exact listed))
    exact reached.elim Beside.sameOffer (Moved.sameOffer uncaptured)
  · rw [same.eq id]
  · refine optionRel_imp (fun _ _ reached => ?_)
      (h.place? uncaptured (by rw [kind]; exact List.mem_singleton_self name))
    exact reached.elim .beside (.moved uncaptured)

/-- A check before the replacement agrees with one after it that may go as deep. -/
theorem Inlined.check_agrees (h : place.Inlined context place') {fuel more : Nat}
    (le : fuel ≤ more) (value : Json) :
    Tolerance.strict.checks (fun _ _ => True)
      (place.node.check fuel value (place.scope (.ofContext context)))
      (place'.node.check more value (place'.scope (.ofContext context))) := by
  induction fuel generalizing place place' value more with
  | zero => exact .cut (fun _ => rfl) rfl
  | succ fuel ih =>
    obtain ⟨more, rfl⟩ : ∃ n, more = n + 1 := ⟨more - 1, by omega⟩
    have inner (target target' : Place) (h : target.Inlined context target') (value value' : Json)
        (same : Json.Reordered False value value') :
        Tolerance.strict.checks (fun _ _ => True)
          (target.node.check fuel value (target.scope (.ofContext context)))
          (target'.node.check more value' (target'.scope (.ofContext context))) := by
      rw [← same.eq id]
      exact ih h (by omega) value
    cases h with
    | beside h => exact checkWith_agrees inner h.matches (.refl value)
    | moved uncaptured h => exact checkWith_agrees inner (h.matches uncaptured) (.refl value)
    | @here _ _ name target schema around may =>
      cases given : value.isNull with
      | false =>
        rw [scope, Node.check_plainReference may.leads given]
        exact ih (may.inlined around) (by omega) value
      | true =>
        obtain rfl : value = .null := by cases value <;> first | rfl | cases given
        have optional : (schema.underName name).options.required = false := may.optional
        have noDefault : (schema.underName name).default? = none := may.noDefault
        dsimp only
        rw [Node.check, Node.check, Node.checkWith, Node.checkWith,
          Node.present_null rfl rfl, Node.present_null optional noDefault]
        exact Tolerance.strict.checks_recordAll Iff.rfl

/-- A cast before the replacement agrees with one after it that may go as deep. -/
theorem Inlined.cast_agrees (h : place.Inlined context place') {fuel more : Nat}
    (le : fuel ≤ more) (value : Json) :
    Tolerance.strict.runs Eq (place.cast fuel (.ofContext context) value)
      (place'.cast more (.ofContext context) value) := by
  induction fuel generalizing place place' value more with
  | zero => exact .cut rfl rfl
  | succ fuel ih =>
    obtain ⟨more, rfl⟩ : ∃ n, more = n + 1 := ⟨more - 1, by omega⟩
    have checks (target target' : Place) (h : target.Inlined context target') (value value' : Json)
        (same : Json.Reordered False value value') :
        Tolerance.strict.checks (fun _ _ => True)
          (target.node.check fuel value (target.scope (.ofContext context)))
          (target'.node.check more value' (target'.scope (.ofContext context))) := by
      rw [← same.eq id]
      exact h.check_agrees (by omega) value
    have casts (target target' : Place) (h : target.Inlined context target') (value value' : Json)
        (same : Json.Reordered False value value') :
        Tolerance.strict.runs (Json.Reordered False)
          (target.cast fuel (.ofContext context) value)
          (target'.cast more (.ofContext context) value') := by
      rw [← same.eq id]
      refine Tolerance.strict.runs_imp (ih h (by omega) value) ?_
      rintro output _ rfl
      exact .refl output
    have equal {x y : Run Unit Json} (h : Tolerance.strict.runs (Json.Reordered False) x y) :
        Tolerance.strict.runs Eq x y := Tolerance.strict.runs_imp h fun _ _ same => same.eq id
    cases h with
    | beside h => exact equal (castWith_agrees checks casts h.matches (.refl value))
    | moved uncaptured h =>
      exact equal (castWith_agrees checks casts (h.matches uncaptured) (.refl value))
    | @here _ _ name target schema around may =>
      cases given : value.isNull with
      | false =>
        rw [cast, scope, Node.castTo_plainReference may.leads given]
        exact ih (may.inlined around) (by omega) value
      | true =>
        obtain rfl : value = .null := by cases value <;> first | rfl | cases given
        have optional : (schema.underName name).options.required = false := may.optional
        have noDefault : (schema.underName name).default? = none := may.noDefault
        rw [cast, cast, Node.castTo, Node.castTo, Node.castWith_null rfl rfl,
          Node.castWith_null optional noDefault]
        exact Tolerance.strict.runs_pure rfl

end Place

/-- Runs of which the first goes on with more fuel as it did come to the same end, if both end. -/
theorem Tolerance.sameResult_of_runs {α β : Type} {V : α → β → Prop} {x : Run Unit α}
    {y : Run Unit β} (h : Tolerance.strict.runs V x y) (ended : (x ()).1 ≠ .error .exhausted) :
    SameResult V (x ()).1 (y ()).1 := by
  cases h with
  | ok left right h =>
    rw [left, right]
    exact .ok h
  | fault left right =>
    rw [left, right]
    exact .error _
  | cut left h =>
    rw [left, h] at ended
    exact absurd rfl ended

/-- Replacing a plain reference by the schema of the context to which it leads changes neither
whether a value is valid, invalid or makes the run break off, nor the result of a cast, wherever
runs end on both schemas. This holds for all bounds on the depth, that of `Node.validate` and
`Node.cast` included. -/
theorem sameResult_of_inlines {node node' : Node} (inlines : node.Inlines context [] node')
    (value : Json) (fuel fuel' : Nat) (s t : σ) :
    ((node.place.validate fuel (.ofContext context) value s).1 ≠ .error .exhausted →
      (node'.place.validate fuel' (.ofContext context) value t).1 ≠ .error .exhausted →
      SameResult (fun log log' => log.isEmpty = log'.isEmpty)
        (node.place.validate fuel (.ofContext context) value s).1
        (node'.place.validate fuel' (.ofContext context) value t).1) ∧
    ((node.place.cast fuel (.ofContext context) value s).1 ≠ .error .exhausted →
      (node'.place.cast fuel' (.ofContext context) value t).1 ≠ .error .exhausted →
      (node.place.cast fuel (.ofContext context) value s).1 =
        (node'.place.cast fuel' (.ofContext context) value t).1) := by
  have inlined : node.place.Inlined context node'.place := by
    cases inlines with
    | here may => exact .here .nil may
    | inside inlines => exact .beside ⟨.nil, .inr inlines⟩
  -- To be compared the second run may need more fuel than it has; with more it ends the same way.
  constructor
  · intro ended ended'
    have more := node'.place.validate_of_le value (Nat.le_max_right fuel fuel') ended'
    rw [← more, Place.validate_state _ _ _ t ()]
    rw [Place.validate_state _ _ _ s ()] at ended ⊢
    exact Tolerance.sameResult_of_runs (Tolerance.strict.runs_trial
      (inlined.check_agrees (Nat.le_max_left fuel fuel') value)) ended
  · intro ended ended'
    have more := node'.place.cast_of_le value (Nat.le_max_right fuel fuel') ended'
    rw [← more, Place.cast_state _ _ _ t ()]
    rw [Place.cast_state _ _ _ s ()] at ended ⊢
    exact (Tolerance.sameResult_of_runs
      (inlined.cast_agrees (Nat.le_max_left fuel fuel') value) ended).eq

/-- A property that refers to a tree, below definitions of another name. -/
theorem sameResult_of_inlines_tree :
    let tree : Node :=
      ⟨{}, .hash { properties := [("v", ⟨{}, .integer { castText := true }⟩),
        ("l", .plainReference (some "l") "tree")] }⟩
    let options : NodeOptions := { definitions := [("leaf", ⟨{}, .symbol⟩)] }
    let root : Node :=
      ⟨options, .hash { properties := [("x", .plainReference (some "x") "tree")] }⟩
    let root' : Node := ⟨options, .hash { properties := [("x", tree.underName (some "x"))] }⟩
    let value : Json := .obj [("x", .obj [("v", .str "1"), ("l", .obj [("v", .int 2)])])]
    let data : Json := .obj [("x", .obj [("v", .int 1), ("l", .obj [("v", .int 2)])])]
    (root.place.cast 6 (.ofContext [("tree", tree)] : Resolver Unit) value ()).1 = .ok data ∧
      (root'.place.cast 5 (.ofContext [("tree", tree)] : Resolver Unit) value ()).1 = .ok data := by
  intro tree options root root' value data
  have may : tree.MayReplace [("tree", tree)] [options.definitions] "tree" := by
    refine ⟨rfl, rfl, rfl, rfl, rfl, rfl, fun needed mem => ?_⟩
    have needs : External.collect [] [] tree = ["tree"] := rfl
    rw [needs] at mem
    rw [List.mem_singleton.mp mem]
    rfl
  have inlines : root.Inlines [("tree", tree)] [] root' :=
    .inside (.child (.here may) (@Kind.Replaces.property _ _ {} [] [] "x"))
  have left : (root.place.cast 6 (.ofContext [("tree", tree)] : Resolver Unit) value ()).1 =
      .ok data := rfl
  have right : (root'.place.cast 5 (.ofContext [("tree", tree)] : Resolver Unit) value ()).1 ≠
      .error .exhausted := by
    intro h
    cases h
  obtain ⟨_, casts⟩ := sameResult_of_inlines inlines value 6 5 () ()
  refine ⟨left, ?_⟩
  rw [← casts (by rw [left]; intro h; cases h) right]
  exact left

end SchemaCast
