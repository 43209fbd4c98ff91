import SchemaCast.Proofs.Coverage

/-!
# What a run sees where it goes

`Node.checkVisiting` and `Node.castVisiting` are traversals that note every node they come to,
with the definitions that they have at hand there. At each of them these are the definitions of the
nodes around it in the schema that it is written in, its own included, and of no other node. A name
therefore stands for what the nearest of these nodes declares, or else for the schema that the
context has for it; without one the run breaks off.
-/
namespace SchemaCast

variable {σ : Type} {context : Context}

/-! ### Lines of nodes -/

/-- The nodes that a node owns, its definitions included. -/
def Node.owned (node : Node) : List Node := node.children ++ node.definitions.map Prod.snd

/-- The nodes around a node in a schema, from the schema itself down to the node. -/
inductive Node.Line (schema : Node) : List Node → Node → Prop where
  | top : Line schema [schema] schema
  | owned {line : List Node} {owner node : Node} (above : Line schema line owner)
      (owns : node ∈ owner.owned) : Line schema (line ++ [node]) node

/-- The definitions that nodes declare, in the order of the nodes; most nodes declare none. -/
def declaredAlong (line : List Node) : List Definitions :=
  (line.map Node.definitions).filter fun definitions => !definitions.isEmpty

theorem declaredAlong_append (line rest : List Node) :
    declaredAlong (line ++ rest) = declaredAlong line ++ declaredAlong rest := by
  unfold declaredAlong
  rw [List.map_append, List.filter_append]

theorem declaredAlong_singleton (node : Node) :
    declaredAlong [node] = if node.definitions.isEmpty then [] else [node.definitions] := by
  unfold declaredAlong
  cases h : node.definitions <;> simp [h]

/-- The definitions inside a place are those around it and those of its node. -/
theorem Place.reverse_inner (place : Place) :
    place.inner.reverse = place.outer.reverse ++ declaredAlong [place.node] := by
  rw [declaredAlong_singleton]
  rcases place.inner_cases with ⟨none, hinner⟩ | ⟨some, hinner⟩
  · simp [hinner, none]
  · simp [hinner, some]

/-- The definitions inside a place of a schema are those along the line that leads to it. -/
theorem Place.exists_line {schema : Node} {place : Place} (h : schema.place.Within place) :
    ∃ line, Node.Line schema line place.node ∧ place.inner.reverse = declaredAlong line := by
  induction h with
  | refl => exact ⟨[schema], .top, schema.place.reverse_inner⟩
  | @tail before place _ owns ih =>
    obtain ⟨line, above, hline⟩ := ih
    have houter : place.outer = before.inner := by cases owns <;> rfl
    refine ⟨line ++ [place.node], .owned above ?_, ?_⟩
    · cases owns with
      | child owned => exact List.mem_append_left _ owned
      | definition declared => exact List.mem_append_right _ (List.mem_map_of_mem declared)
    · rw [declaredAlong_append, ← hline, place.reverse_inner, houter]

theorem lookupLocal_undeclared {name : String} {line : List Node}
    (undeclared : ∀ node ∈ line, node.definitions.get? name = none) :
    lookupLocal name (declaredAlong line).reverse = none := by
  refine Place.lookupLocal_eq_none fun definitions mem => ?_
  obtain ⟨node, hnode, rfl⟩ :=
    List.mem_map.mp (List.mem_filter.mp (List.mem_reverse.mp mem)).1
  exact undeclared node hnode

/-- The nearest node of a line that declares a name decides what the name stands for, and around
that are the definitions along the line up to this node. -/
theorem lookupLocal_nearest {name : String} {before after : List Node} {owner node : Node}
    (declared : owner.definitions.get? name = some node)
    (undeclared : ∀ other ∈ after, other.definitions.get? name = none) :
    lookupLocal name (declaredAlong (before ++ owner :: after)).reverse =
      some (node, (declaredAlong (before ++ [owner])).reverse) := by
  have some : owner.definitions.isEmpty = false := by
    cases h : owner.definitions with
    | nil => rw [h] at declared; cases declared
    | cons _ _ => rfl
  have inside : (declaredAlong (before ++ [owner])).reverse =
      owner.definitions :: (declaredAlong before).reverse := by
    rw [declaredAlong_append, declaredAlong_singleton, some, if_neg Bool.false_ne_true,
      List.reverse_append]
    rfl
  rw [List.append_cons, declaredAlong_append, List.reverse_append,
    Place.lookupLocal_append, lookupLocal_undeclared undeclared, inside, lookupLocal, declared]

/-- What names stand for in a scope at the end of a line. -/
structure Scope.Follows (scope : Scope σ) (context : Context) (line : List Node) : Prop where
  stack : scope.definitions.reverse = declaredAlong line
  nearest (name : String) (before after : List Node) (owner node : Node) :
    line = before ++ owner :: after → owner.definitions.get? name = some node →
      (∀ other ∈ after, other.definitions.get? name = none) →
        scope.target name =
          pure (node, ⟨.ofContext context, (declaredAlong (before ++ [owner])).reverse⟩)
  elsewhere (name : String) : (∀ other ∈ line, other.definitions.get? name = none) →
    scope.target name =
      match context.get? name with
      | some schema => pure (schema, .root (.ofContext context))
      | none => Run.broken (.unresolvedReference name)

theorem Scope.follows_of_stack {stack : List Definitions} {line : List Node}
    (h : stack.reverse = declaredAlong line) :
    (⟨.ofContext context, stack⟩ : Scope σ).Follows context line := by
  obtain rfl : stack = (declaredAlong line).reverse := by rw [← h, List.reverse_reverse]
  refine ⟨h, fun name before after owner node hline declared undeclared => ?_,
    fun name undeclared => ?_⟩
  · subst hline
    rw [Scope.target_ofContext]
    unfold Context.place?
    rw [lookupLocal_nearest declared undeclared]
    rfl
  · rw [Scope.target_ofContext]
    unfold Context.place?
    rw [lookupLocal_undeclared undeclared]
    cases context.get? name <;> rfl

/-! ### Traversals that note where they go -/

/-- Put a visit on record. -/
def Place.visit (place : Place) : Run (List Place) Unit := fun visits => (.ok (), visits ++ [place])

/-- Check a value as `Node.check` does, and note every node on the way. -/
def Node.checkVisiting : Nat → NodeCheck (List Place)
  | 0, node, _, scope => do
    Check.ofRun (Place.visit ⟨node, scope.definitions⟩)
    Check.ofRun Run.exhausted
  | fuel + 1, node, value, scope => do
    Check.ofRun (Place.visit ⟨node, scope.definitions⟩)
    node.checkWith (checkVisiting fuel) value scope

/-- Cast a value as `Node.castTo` does, and note every node on the way, also those of the checks
that choose between alternatives. -/
def Node.castVisiting : Nat → NodeCast (List Place)
  | 0, node, _, scope => do
    Place.visit ⟨node, scope.definitions⟩
    Run.exhausted
  | fuel + 1, node, value, scope => do
    Place.visit ⟨node, scope.definitions⟩
    node.castWith (Node.checkVisiting fuel) (castVisiting fuel) value scope

namespace Place

variable {place : Place} {root : Node}

/-- Validate a value at a place with a context, and note every visit. -/
def validateVisiting (place : Place) (context : Context) (fuel : Nat) (value : Json) :
    Run (List Place) ErrorLog :=
  Check.trial (place.node.checkVisiting fuel value (place.scope (.ofContext context)))

/-- Cast a value at a place with a context, and note every visit. -/
def castVisiting (place : Place) (context : Context) (fuel : Nat) (value : Json) :
    Run (List Place) Json :=
  place.node.castVisiting fuel value (place.scope (.ofContext context))

/-- Noting the visits does not change the result of a check. -/
theorem checkVisiting_alike (fuel : Nat) (place : Place) (value : Json) :
    (alike (List Place) σ).check (fun _ _ => True)
      (place.node.checkVisiting fuel value (place.scope (.ofContext context)))
      (place.node.check fuel value (place.scope (.ofContext context))) := by
  have noted (place : Place) : (Check.ofRun place.visit).Acts (.ok ()) [] :=
    fun _ _ => ⟨rfl, rfl⟩
  induction fuel generalizing place value with
  | zero =>
    have cut : (Check.ofRun Run.exhausted : Check (List Place) Unit).Acts (.error .exhausted) [] :=
      fun _ _ => ⟨rfl, rfl⟩
    exact ⟨_, _, [], .error .exhausted, (noted place).bind_ok cut, fun _ _ => ⟨rfl, rfl⟩⟩
  | succ fuel ih =>
    have serves : (alike (List Place) σ).Serves context (.ofContext context) (.ofContext context)
        place := serves_alike place
    obtain ⟨r, r', steps, same, hr, hr'⟩ := (alike (List Place) σ).checkWith_related serves
      (fun target _ value => ih target value) value
    exact ⟨r, r', steps, same, (noted place).bind_ok hr, hr'⟩

/-- Noting the visits does not change the result of a cast. -/
theorem castVisiting_alike (fuel : Nat) (place : Place) (value : Json) :
    (alike (List Place) σ).run Eq (place.castVisiting context fuel value)
      (place.cast fuel (.ofContext context) value) := by
  have noted (place : Place) : place.visit.Yields (.ok ()) := fun _ => rfl
  induction fuel generalizing place value with
  | zero =>
    have cut : (Run.exhausted : Run (List Place) Json).Yields (.error .exhausted) := fun _ => rfl
    exact ⟨_, _, .error .exhausted, (noted place).bind_ok cut, fun _ => rfl⟩
  | succ fuel ih =>
    have serves : (alike (List Place) σ).Serves context (.ofContext context) (.ofContext context)
        place := serves_alike place
    obtain ⟨r, r', same, hr, hr'⟩ := (alike (List Place) σ).castWith_related serves
      (fun target _ value => checkVisiting_alike fuel target value)
      (fun target _ value => ih target value) value
    exact ⟨r, r', same, (noted place).bind_ok hr, hr'⟩

/-! ### Where runs go -/

/-- A place that is written in a schema or in some schema of the context. -/
def Written (context : Context) (root : Node) (place : Place) : Prop :=
  place.WrittenIn context root context.keys

theorem written_of_step {target : Place} (written : place.Written context root)
    (step : place.Step context target) : target.Written context root := by
  refine WrittenIn.of_step written (fun name _ _ schema found => ?_) step
  exact List.mem_map_of_mem (Entries.mem_of_get? found)

/-- If a list of nodes without definitions holds all children of its nodes and all schemas of the
context, then nothing else can be reached from them. -/
theorem mem_of_reaches {nodes : List Node}
    (closed : ∀ node ∈ nodes, node.children ⊆ nodes ∧ node.definitions = [])
    (named : ∀ entry ∈ context, entry.2 ∈ nodes) (start : root ∈ nodes)
    (reached : root.place.Reaches context place) : place.node ∈ nodes ∧ place.outer = [] := by
  have written : place.Written context root := by
    induction reached with
    | refl => exact ⟨root, .inl rfl, .refl⟩
    | tail _ step written => exact written_of_step written step
  obtain ⟨schema, rfl | ⟨name, _, found⟩, within⟩ := written
  · exact within.mem_of_closed closed start rfl
  · exact within.mem_of_closed closed (named _ (Entries.mem_of_get? found)) rfl

/-- All visits on record are to written places. -/
def AllWritten (context : Context) (root : Node) (visits : List Place) : Prop :=
  ∀ visit ∈ visits, visit.Written context root

theorem visit_holds (written : place.Written context root) :
    place.visit.Holds (AllWritten context root) (fun _ => True) fun _ => True := by
  intro visits h
  refine ⟨fun visit mem => ?_, fun _ _ => trivial, fun _ _ => trivial⟩
  rcases List.mem_append.mp mem with mem | mem
  · exact h visit mem
  · rw [List.mem_singleton.mp mem]
    exact written

/-- Checks that keep all visits on record in written places. -/
def StaysWritten {α : Type} (context : Context) (root : Node) (c : Check (List Place) α) : Prop :=
  Run.Holds (σ := ErrorLog × List Place) c (fun state => AllWritten context root state.2)
    (fun _ => True) fun _ => True

/-- A check at a written place goes to written places only. -/
theorem staysWritten_checkVisiting (fuel : Nat) (written : place.Written context root)
    (value : Json) : StaysWritten context root
      (place.node.checkVisiting fuel value (place.scope (.ofContext context))) := by
  let S := keeps (List Place) (AllWritten context root) fun _ => True
  have noted {place : Place} (written : place.Written context root) :
      StaysWritten context root (Check.ofRun place.visit) :=
    fun state h => visit_holds written state.2 h
  induction fuel generalizing place value with
  | zero => exact .bind (noted written) fun _ _ => .exhausted (σ := ErrorLog × List Place) trivial
  | succ fuel ih =>
    have serves : S.Serves context (.ofContext context) (.ofContext context) place := serves_free
    have inner (target : Place) (step : place.Step context target) (value : Json) :
        S.check (fun _ _ => True)
          (target.node.checkVisiting fuel value (target.scope (.ofContext context)))
          (target.node.checkVisiting fuel value (target.scope (.ofContext context))) :=
      (ih (written_of_step written step) value).imp fun _ _ => ⟨(), trivial⟩
    exact .bind (noted written) fun _ _ =>
      (S.checkWith_related serves inner value).imp fun _ _ => trivial

/-- A cast at a written place goes to written places only. -/
theorem castVisiting_holds (fuel : Nat) (written : place.Written context root) (value : Json) :
    (place.castVisiting context fuel value).Holds (AllWritten context root) (fun _ => True)
      fun _ => True := by
  let S := keeps (List Place) (AllWritten context root) fun _ => True
  induction fuel generalizing place value with
  | zero => exact .bind (visit_holds written) fun _ _ => .exhausted trivial
  | succ fuel ih =>
    have serves : S.Serves context (.ofContext context) (.ofContext context) place := serves_free
    have checks (target : Place) (step : place.Step context target) (value : Json) :
        S.check (fun _ _ => True)
          (target.node.checkVisiting fuel value (target.scope (.ofContext context)))
          (target.node.checkVisiting fuel value (target.scope (.ofContext context))) :=
      (staysWritten_checkVisiting fuel (written_of_step written step) value).imp
        fun _ _ => ⟨(), trivial⟩
    have casts (target : Place) (step : place.Step context target) (value : Json) :
        S.run Eq (target.castVisiting context fuel value)
          (target.castVisiting context fuel value) :=
      (ih (written_of_step written step) value).imp fun output _ => ⟨output, rfl⟩
    exact .bind (visit_holds written) fun _ _ =>
      (S.castWith_related serves checks casts value).imp fun _ _ => trivial

theorem validateVisiting_holds (fuel : Nat) (written : place.Written context root)
    (value : Json) : (place.validateVisiting context fuel value).Holds (AllWritten context root)
      (fun _ => True) fun _ => True := by
  let S := keeps (List Place) (AllWritten context root) fun _ => True
  have check : S.check (fun _ _ => True)
      (place.node.checkVisiting fuel value (place.scope (.ofContext context)))
      (place.node.checkVisiting fuel value (place.scope (.ofContext context))) :=
    (staysWritten_checkVisiting fuel written value).imp fun _ _ => ⟨(), trivial⟩
  exact (S.run_trial check).imp fun _ _ => trivial

end Place

/-! ### Names without a schema -/

/-- Started with names that have schemas, a run that asks for a name without one breaks off
there. -/
def Run.StopsAt {σ α : Type} (context : Context) (asked : σ → List String) (x : Run σ α)
    (V : α → Prop) : Prop :=
  ∀ s, (∀ name ∈ asked s, context.get? name ≠ none) →
    (∀ name ∈ asked (x s).2, context.get? name = none →
      (x s).1 = .error (.schema (.unresolvedReference name))) ∧ ∀ a, (x s).1 = .ok a → V a

namespace Run.StopsAt

variable {α β : Type} {asked : σ → List String} {V : α → Prop} {W : β → Prop}

theorem pure {a : α} (h : V a) : StopsAt context asked (Pure.pure a : Run σ α) V := by
  intro s known
  refine ⟨fun name mem missing => absurd missing (known name mem), ?_⟩
  rintro _ ⟨⟩
  exact h

theorem fail {fault : Fault} : StopsAt context asked (throw fault : Run σ α) V := by
  intro s known
  refine ⟨fun name mem missing => absurd missing (known name mem), fun a ha => by cases ha⟩

theorem bind {x : Run σ α} {f : α → Run σ β} (hx : x.StopsAt context asked V)
    (hf : ∀ a, V a → (f a).StopsAt context asked W) : StopsAt context asked (x >>= f) W := by
  intro s known
  obtain ⟨stops, values⟩ := hx s known
  rcases h : x s with ⟨fault | a, s'⟩ <;> rw [h] at stops values
  · rw [Run.bind_error h]
    refine ⟨fun name mem missing => ?_, fun b hb => by cases hb⟩
    cases stops name mem missing
    rfl
  · rw [Run.bind_ok h]
    refine hf a (values a rfl) s' fun name mem missing => ?_
    cases stops name mem missing

end Run.StopsAt

/-- Runs and checks with a noting context that break off at the first name without a schema. The
other side is not looked at. -/
def stopsAt (context : Context) : Simulation (List String) (List String) where
  run V x _ := x.StopsAt context id fun a => ∃ b, V a b
  check V c _ := Run.StopsAt (σ := ErrorLog × List String) context Prod.snd c fun a => ∃ b, V a b
  run_pure h := .pure ⟨_, h⟩
  run_bind h hf := .bind h fun _ ⟨_, hab⟩ => hf _ _ hab
  run_trial {c d} h := by
    intro s known
    obtain ⟨stops, _⟩ := h ({}, s) known
    rcases hc : c ({}, s) with ⟨fault | u, log, s'⟩ <;> rw [hc] at stops <;>
      rw [Check.trial_apply hc]
    · refine ⟨fun name mem missing => ?_, fun a ha => by cases ha⟩
      cases stops name mem missing
      rfl
    · refine ⟨fun name mem missing => ?_, fun log' _ => ⟨log', rfl⟩⟩
      cases stops name mem missing
  check_pure h := .pure ⟨_, h⟩
  check_bind h hf := .bind h fun _ ⟨_, hab⟩ => hf _ _ hab
  check_ofRun {α β V x y} h := by
    rintro ⟨log, s⟩ known
    rw [Check.ofRun_apply log (rfl : x s = (_, _))]
    exact h s known
  check_record violation := by
    rintro ⟨log, s⟩ known
    exact ⟨fun name mem missing => absurd missing (known name mem), fun _ _ => ⟨(), trivial⟩⟩
  check_within {α β V c d} segment h := by
    rintro ⟨log, s⟩ known
    rw [Check.within_apply (rfl : c (log.enter segment, s) = (_, _, _))]
    exact h (log.enter segment, s) known

theorem serves_stopsAt (place : Place) :
    (stopsAt context).Serves context (.noting context) (.noting context) place where
  target name _ := by
    intro asked known
    rw [Scope.target_noting]
    cases leads : context.place? place.inner name with
    | some target =>
      refine ⟨fun other mem missing => ?_, fun a ha => ?_⟩
      · cases declared : lookupLocal name place.inner with
        | some found =>
          rw [declared] at mem
          exact absurd missing (known other mem)
        | none =>
          rw [declared] at mem
          rcases List.mem_append.mp mem with mem | mem
          · exact absurd missing (known other mem)
          · rw [List.mem_singleton.mp mem] at missing
            simp [Context.place?, declared, missing] at leads
      · cases ha
        exact ⟨_, target, leads, rfl, rfl⟩
    | none =>
      refine ⟨fun other mem missing => ?_, fun a ha => by cases ha⟩
      cases declared : lookupLocal name place.inner with
      | some found => simp [Context.place?, declared] at leads
      | none =>
        rw [declared] at mem
        rcases List.mem_append.mp mem with mem | mem
        · exact absurd missing (known other mem)
        · rw [List.mem_singleton.mp mem]
  deadEnd _ := .fail

namespace Place

/-- A run that asks the context for a name without a schema breaks off with that name. -/
theorem stops_of_missing (place : Place) (fuel : Nat) (value : Json) (s : σ) (name : String)
    (missing : context.get? name = none) :
    (name ∈ (place.validate fuel (.noting context) value []).2 →
      (place.validate fuel (.ofContext context) value s).1 =
        .error (.schema (.unresolvedReference name))) ∧
    (name ∈ (place.cast fuel (.noting context) value []).2 →
      (place.cast fuel (.ofContext context) value s).1 =
        .error (.schema (.unresolvedReference name))) := by
  have free (place target : Place) (_ : True) (_ : place.Step context target) : True := trivial
  have serves (place : Place) (_ : True) : (alike (List String) σ).Serves context (.noting context)
      (.ofContext context) place := serves_noting place
  have stops (place : Place) (_ : True) : (stopsAt context).Serves context (.noting context)
      (.noting context) place := serves_stopsAt place
  have none_asked : ∀ name ∈ id ([] : List String), context.get? name ≠ none := by simp
  constructor
  · intro asked
    have same := (alike (List String) σ).validate_related free serves exhausted_alike fuel place
      trivial value
    rw [← alike_eq same [] s]
    have stopped := (stopsAt context).validate_related free stops .fail fuel place trivial value
    exact (stopped [] none_asked).1 name asked missing
  · intro asked
    have same := (alike (List String) σ).cast_related free serves exhausted_alike fuel place
      trivial value
    rw [← alike_eq same [] s]
    have stopped := (stopsAt context).cast_related free stops .fail fuel place trivial value
    exact (stopped [] none_asked).1 name asked missing

/-- At the visited node names stand for what the line of nodes around it in some schema says. A node
that is written in one place only has one such line. -/
def SeesLine (σ : Type) (context : Context) (root : Node) (visit : Place) : Prop :=
  ∃ (schema : Node) (line : List Node),
    (schema = root ∨ ∃ name, context.get? name = some schema) ∧
      Node.Line schema line visit.node ∧
      ((visit.scope (.ofContext context : Resolver σ)).enter visit.node).Follows context line

theorem Written.seesLine {root : Node} {visit : Place} (h : visit.Written context root) :
    visit.SeesLine σ context root := by
  obtain ⟨schema, origin, within⟩ := h
  obtain ⟨line, hline, hstack⟩ := exists_line within
  refine ⟨schema, line, origin.imp_right fun ⟨name, _, found⟩ => ⟨name, found⟩, hline, ?_⟩
  rw [visit.enter_scope]
  exact Scope.follows_of_stack hstack

end Place

/-- At every node that a validation or a cast comes to, the definitions at hand are those that the
nodes around it declare where it is written, in the root schema or in a schema of the context. The
nearest of these nodes that declares a name decides what the name stands for, and around the target
are then the definitions at that node; else the name stands for the schema of the context, with no
definitions around it; else the run breaks off with the name. This holds for every bound on the
depth, that of `Node.validate` and `Node.cast` included. -/
theorem visits_lexical (context : Context) (root : Node) (fuel : Nat) (value : Json) (s : σ) :
    ((root.place.validateVisiting context fuel value []).1 =
        (root.place.validate fuel (.ofContext context) value s).1 ∧
      (root.place.castVisiting context fuel value []).1 =
        (root.place.cast fuel (.ofContext context) value s).1) ∧
    (∀ visit ∈ (root.place.validateVisiting context fuel value []).2 ++
        (root.place.castVisiting context fuel value []).2, visit.SeesLine σ context root) ∧
    ∀ name, context.get? name = none →
      (name ∈ (root.place.validate fuel (.noting context) value []).2 →
        (root.place.validate fuel (.ofContext context) value s).1 =
          .error (.schema (.unresolvedReference name))) ∧
      (name ∈ (root.place.cast fuel (.noting context) value []).2 →
        (root.place.cast fuel (.ofContext context) value s).1 =
          .error (.schema (.unresolvedReference name))) := by
  have start : root.place.Written context root := ⟨root, .inl rfl, .refl⟩
  have none : Place.AllWritten context root [] := by simp [Place.AllWritten]
  refine ⟨⟨?_, ?_⟩, fun visit mem => ?_, fun name missing => ?_⟩
  · exact alike_eq ((alike (List Place) σ).run_trial
      (Place.checkVisiting_alike fuel root.place value)) [] s
  · exact alike_eq (Place.castVisiting_alike fuel root.place value) [] s
  · rcases List.mem_append.mp mem with mem | mem
    · exact ((Place.validateVisiting_holds fuel start value [] none).1 visit mem).seesLine
    · exact ((Place.castVisiting_holds fuel start value [] none).1 visit mem).seesLine
  · exact root.place.stops_of_missing fuel value s name missing

/-- A definition that refers to a name which its caller declares as well. -/
theorem visits_lexical_shadowed :
    let text : Node := ⟨{}, .string {}⟩
    let number : Node := ⟨{}, .integer {}⟩
    let box : Node := ⟨{}, .hash { properties := [("x", ⟨{}, .reference "leaf"⟩)] }⟩
    let caller : Node := ⟨{ definitions := [("leaf", number)] }, .reference "box"⟩
    let declared : Definitions := [("leaf", text), ("box", box)]
    let root : Node := ⟨{ definitions := declared }, .combination .anyOf [caller] false⟩
    let value : Json := .obj [("x", .str "s")]
    (root.place.validateVisiting [] 5 value []).2 =
        [root.place, ⟨caller, [declared]⟩, ⟨box, [declared]⟩, ⟨⟨{}, .reference "leaf"⟩, [declared]⟩,
          ⟨text, [declared]⟩] ∧
      (⟨text, [declared]⟩ : Place).SeesLine Unit [] root ∧
      (root.place.validate 5 (.ofContext [] : Resolver Unit) value ()).1 = .ok {} := by
  intro text number box caller declared root value
  have trace : (root.place.validateVisiting [] 5 value []).2 =
      [root.place, ⟨caller, [declared]⟩, ⟨box, [declared]⟩, ⟨⟨{}, .reference "leaf"⟩, [declared]⟩,
        ⟨text, [declared]⟩] := rfl
  have result : (root.place.validateVisiting [] 5 value []).1 = .ok {} := rfl
  obtain ⟨⟨same, _⟩, sees, _⟩ := visits_lexical [] root 5 value ()
  refine ⟨trace, sees _ (List.mem_append_left _ ?_), same.symm.trans result⟩
  rw [trace]
  simp

end SchemaCast
