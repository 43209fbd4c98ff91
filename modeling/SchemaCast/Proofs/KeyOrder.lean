import SchemaCast.Proofs.Agreement.Casting

/-!
# The order of keys

Two values that differ in the order of object keys only have the same outcome, if both runs come to
an end: both are valid, both are not, or both break off; and their cast forms differ in the order of
keys only. The order may decide which fault is met first, so that one run breaks off where the other
one goes on for ever.
-/
namespace SchemaCast

variable {σ : Type} {context : Context}

/-- A built-in predicate does not look at the order of keys. -/
theorem Predicate.test_eq {predicate : Predicate} (builtin : predicate ∈ Predicate.builtin)
    {free : Prop} {value value' : Json} (same : Json.Reordered free value value') :
    predicate.test value = predicate.test value' := by
  simp only [Predicate.builtin, List.mem_cons, List.not_mem_nil, or_false] at builtin
  rcases builtin with rfl | rfl | rfl | rfl | rfl | rfl
  · simp only [same.isBlank_eq]
  · simp only [same.isBlank_eq]
  · exact same.isEmpty?_eq
  · simp only [same.number?_eq]
  · simp only [same.number?_eq]
  · simp only [same.number?_eq]

/-- The predicates of an array are built-in ones. -/
structure ArrayRules.UsesBuiltin (rules : ArrayRules) : Prop where
  filter : ∀ predicate ∈ rules.filter, predicate ∈ Predicate.builtin
  reject : ∀ predicate ∈ rules.reject, predicate ∈ Predicate.builtin

theorem ArrayRules.UsesBuiltin.keeps_eq {rules : ArrayRules} (h : rules.UsesBuiltin) {free : Prop}
    {item item' : Json} (same : Json.Reordered free item item') :
    rules.keeps item = rules.keeps item' := by
  have kept : rules.filter.all (fun p => (p.test item).getD true) =
      rules.filter.all fun p => (p.test item').getD true := by
    cases found : rules.filter with
    | none => rfl
    | some predicate => simp [Predicate.test_eq (h.filter predicate found) same]
  have rejected : rules.reject.any (fun p => (p.test item).getD false) =
      rules.reject.any fun p => (p.test item').getD false := by
    cases found : rules.reject with
    | none => rfl
    | some predicate => simp [Predicate.test_eq (h.reject predicate found) same]
  simp only [keeps, kept, rejected]

/-- Entries may change places, and nothing is asked after a fault. -/
def Tolerance.order : Tolerance where
  free := True
  cut _ := True
  cut_of_free _ _ := trivial

namespace Place

variable {root place : Place}

/-- A place that can be reached, twice. -/
def Revisited (context : Context) (root place place' : Place) : Prop :=
  place = place' ∧ root.Reaches context place

/-- A place that can be reached matches itself. -/
theorem matches_self (builtin : ∀ used, root.Reaches context used →
      ∀ rules, used.node.kind = .array rules → rules.UsesBuiltin)
    (reached : root.Reaches context place) :
    place.Matches Tolerance.order context (Revisited context root) place := by
  have alike : place.node.kind.Alike (fun node node' => node = node' ∧ node ∈ place.node.children)
      place.node.kind := Node.alike_self fun child owned => ⟨rfl, owned⟩
  refine ⟨rfl, rfl, rfl, alike.matches (fun node node' same => ?_)
    (fun rules kind name listed => optionRel_self fun target leads => ?_)
    (fun rules kind item item' same => (builtin place reached rules kind).keeps_eq same)
    fun name kind => optionRel_self fun target leads => ?_⟩
  · obtain ⟨rfl, owned⟩ := same
    exact ⟨⟨rfl, reached.tail (.child owned)⟩, rfl, rfl⟩
  · by_cases hash : ∃ targetRules, target.node.kind = .hash targetRules
    · obtain ⟨targetRules, hash⟩ := hash
      refine .hash hash hash (.self fun entry mem => ⟨⟨rfl, ?_⟩, rfl, rfl⟩)
      exact reached.tail (.included kind listed leads hash mem)
    · have other : ∀ rules, target.node.kind ≠ .hash rules := not_exists.mp hash
      exact .other other other rfl
  · exact ⟨rfl, reached.tail (.reference kind leads)⟩

section Whole

variable (builtin : ∀ used, root.Reaches context used →
  ∀ rules, used.node.kind = .array rules → rules.UsesBuiltin)

include builtin in
theorem check_agrees_of_reordered (fuel : Nat) (reached : root.Reaches context place)
    {value value' : Json} (same : Json.Reordered True value value') :
    Tolerance.order.checks (fun _ _ => True)
      (place.node.check fuel value (place.scope (.ofContext context)))
      (place.node.check fuel value' (place.scope (.ofContext context))) := by
  induction fuel generalizing place value value' with
  | zero => exact .cut (fun _ => rfl) trivial
  | succ fuel ih =>
    refine checkWith_agrees ?_ (matches_self builtin reached) same
    rintro target _ ⟨rfl, reached⟩ value value' same
    exact ih reached same

include builtin in
theorem cast_agrees_of_reordered (fuel : Nat) (reached : root.Reaches context place)
    {value value' : Json} (same : Json.Reordered True value value') :
    Tolerance.order.runs (Json.Reordered True) (place.cast fuel (.ofContext context) value)
      (place.cast fuel (.ofContext context) value') := by
  induction fuel generalizing place value value' with
  | zero => exact .cut rfl trivial
  | succ fuel ih =>
    refine castWith_agrees ?_ ?_ (matches_self builtin reached) same
    · rintro target _ ⟨rfl, reached⟩ value value' same
      exact check_agrees_of_reordered builtin fuel reached same
    · rintro target _ ⟨rfl, reached⟩ value value' same
      exact ih reached same

end Whole

end Place

/-- Two runs come to related results, or both break off with an error. -/
inductive EndsAlike {α β : Type} (V : α → β → Prop) : Except Fault α → Except Fault β → Prop where
  | ok {a : α} {b : β} (h : V a b) : EndsAlike V (.ok a) (.ok b)
  | broken (first second : SchemaError) :
      EndsAlike V (.error (.schema first)) (.error (.schema second))

/-- Either of two runs comes to a result if the other one does, and if neither of them is cut off
then they end alike. -/
structure Corresponds {α β : Type} (V : α → β → Prop) (r : Except Fault α) (r' : Except Fault β) :
    Prop where
  isOk : r.isOk = r'.isOk
  alike : r ≠ .error .exhausted → r' ≠ .error .exhausted → EndsAlike V r r'

theorem Corresponds.faults {α β : Type} {V : α → β → Prop} (fault fault' : Fault) :
    Corresponds V (.error fault) (.error fault') where
  isOk := rfl
  alike uncut uncut' := by
    cases fault with
    | exhausted => exact absurd rfl uncut
    | schema error =>
      cases fault' with
      | exhausted => exact absurd rfl uncut'
      | schema error' => exact .broken error error'

theorem Corresponds.of_runs {α β : Type} {V : α → β → Prop} {V' : β → α → Prop} {x : Run Unit α}
    {y : Run Unit β} (h : Tolerance.order.runs V x y) (h' : Tolerance.order.runs V' y x) :
    Corresponds V (x ()).1 (y ()).1 := by
  have faults {fault : Fault} (hx : x () = (.error fault, ())) :
      Corresponds V (x ()).1 (y ()).1 := by
    rw [hx]
    cases h' with
    | ok hy hx' => rw [hx'] at hx; cases hx
    | fault hy => rw [hy]; exact .faults _ _
    | cut hy => rw [hy]; exact .faults _ _
  cases h with
  | ok hx hy h =>
    rw [hx, hy]
    exact ⟨rfl, fun _ _ => .ok h⟩
  | fault hx => exact faults hx
  | cut hx => exact faults hx

namespace Place

variable {root : Node} {value value' : Json}
  (builtin : ∀ used, root.place.Reaches context used →
    ∀ rules, used.node.kind = .array rules → rules.UsesBuiltin)
  (same : Json.Reordered True value value')

include builtin same

theorem validate_corresponds (fuel : Nat) (s t : σ) :
    Corresponds (fun log log' => log.isEmpty = log'.isEmpty)
      (root.place.validate fuel (.ofContext context) value s).1
      (root.place.validate fuel (.ofContext context) value' t).1 := by
  rw [validate_state _ _ _ s (), validate_state _ _ _ t ()]
  exact .of_runs
    (Tolerance.order.runs_trial (check_agrees_of_reordered builtin fuel .refl same))
    (Tolerance.order.runs_trial (check_agrees_of_reordered builtin fuel .refl same.symm))

theorem cast_corresponds (fuel : Nat) (s t : σ) :
    Corresponds (Json.Reordered True) (root.place.cast fuel (.ofContext context) value s).1
      (root.place.cast fuel (.ofContext context) value' t).1 := by
  rw [cast_state _ _ _ s (), cast_state _ _ _ t ()]
  exact .of_runs (cast_agrees_of_reordered builtin fuel .refl same)
    (cast_agrees_of_reordered builtin fuel .refl same.symm)

end Place

/-- The order of the keys of a value, at any depth, plays no part in whether the value is valid or
invalid or makes a validation or a cast break off, as far as both runs come to an end, under bounds
that may differ; and the cast forms of two values that differ in the order of keys differ in the
order of keys only. Under one and the same bound, either run comes to a result if the other one
does. This holds of `Node.validate` and `Node.cast` too, whose bound is the same for both values. -/
theorem endsAlike_of_reordered {root : Node} {value value' : Json}
    (builtin : ∀ used, root.place.Reaches context used →
      ∀ rules, used.node.kind = .array rules → rules.UsesBuiltin)
    (same : Json.Reordered True value value') (s t : σ) :
    (∀ fuel fuel',
      (root.place.validate fuel (.ofContext context) value s).1 ≠ .error .exhausted →
      (root.place.validate fuel' (.ofContext context) value' t).1 ≠ .error .exhausted →
        EndsAlike (fun log log' => log.isEmpty = log'.isEmpty)
          (root.place.validate fuel (.ofContext context) value s).1
          (root.place.validate fuel' (.ofContext context) value' t).1) ∧
    (∀ fuel fuel',
      (root.place.cast fuel (.ofContext context) value s).1 ≠ .error .exhausted →
      (root.place.cast fuel' (.ofContext context) value' t).1 ≠ .error .exhausted →
        EndsAlike (Json.Reordered True)
          (root.place.cast fuel (.ofContext context) value s).1
          (root.place.cast fuel' (.ofContext context) value' t).1) ∧
    (∀ fuel,
      Corresponds (fun log log' => log.isEmpty = log'.isEmpty)
          (root.place.validate fuel (.ofContext context) value s).1
          (root.place.validate fuel (.ofContext context) value' t).1 ∧
        Corresponds (Json.Reordered True)
          (root.place.cast fuel (.ofContext context) value s).1
          (root.place.cast fuel (.ofContext context) value' t).1) ∧
    Corresponds (fun log log' => log.isEmpty = log'.isEmpty)
      (root.validate (.ofContext context) value s).1
      (root.validate (.ofContext context) value' t).1 ∧
    Corresponds (Json.Reordered True) (root.cast (.ofContext context) value s).1
      (root.cast (.ofContext context) value' t).1 := by
  have validations (fuel : Nat) := Place.validate_corresponds builtin same fuel s t
  have casts (fuel : Nat) := Place.cast_corresponds builtin same fuel s t
  have bound : root.depthBound (.ofContext context : Resolver σ) value =
      root.depthBound (.ofContext context : Resolver σ) value' := by
    unfold Node.depthBound
    rw [same.size_eq]
  refine ⟨fun fuel fuel' ended ended' => ?_, fun fuel fuel' ended ended' => ?_,
    fun fuel => ⟨validations fuel, casts fuel⟩, ?_, ?_⟩
  · have both := (validations (max fuel fuel')).alike
    rw [root.place.validate_of_le value (Nat.le_max_left ..) ended,
      root.place.validate_of_le value' (Nat.le_max_right ..) ended'] at both
    exact both ended ended'
  · have both := (casts (max fuel fuel')).alike
    rw [root.place.cast_of_le value (Nat.le_max_left ..) ended,
      root.place.cast_of_le value' (Nat.le_max_right ..) ended'] at both
    exact both ended ended'
  · rw [Node.validate_eq, Node.validate_eq, ← bound]
    exact validations _
  · rw [Node.cast_eq, Node.cast_eq, ← bound]
    exact casts _

/-- Further fields of an object in another order, at two depths. -/
theorem endsAlike_of_reordered_tags :
    let blank : Predicate := ⟨"blank", fun value => some value.isBlank⟩
    let tags : Node := ⟨{}, .array { items := .any, reject := some blank }⟩
    let root : Node := ⟨{}, .hash { properties := [("tags", tags)], additional := .allow }⟩
    let list : Json := .arr [.str "x", .str ""]
    let value : Json :=
      .obj [("a", .int 2), ("b", .obj [("p", .int 1), ("q", .null)]), ("tags", list)]
    let value' : Json :=
      .obj [("b", .obj [("q", .null), ("p", .int 1)]), ("a", .int 2), ("tags", list)]
    let data : Json :=
      .obj [("tags", .arr [.str "x"]), ("a", .int 2), ("b", .obj [("p", .int 1), ("q", .null)])]
    let data' : Json :=
      .obj [("tags", .arr [.str "x"]), ("b", .obj [("q", .null), ("p", .int 1)]), ("a", .int 2)]
    (root.place.cast 2 (.ofContext [] : Resolver Unit) value ()).1 = .ok data ∧
      (root.place.cast 2 (.ofContext [] : Resolver Unit) value' ()).1 = .ok data' ∧
      Json.Reordered True data data' := by
  intro blank tags root list value value' data data'
  have reached (used : Place) (h : root.place.Reaches [] used) :
      used.node = root ∨ used.node = tags := by
    induction h with
    | refl => exact .inl rfl
    | tail _ step ih =>
      cases step with
      | child owned =>
        rcases ih with h | h <;> rw [h] at owned
        · exact .inr (List.mem_singleton.mp owned)
        · cases owned
      | reference kind => rcases ih with h | h <;> rw [h] at kind <;> cases kind
      | included kind listed =>
        rcases ih with h | h <;> rw [h] at kind <;> cases kind
        cases listed
  have builtin (used : Place) (h : root.place.Reaches [] used) (rules : ArrayRules)
      (kind : used.node.kind = .array rules) : rules.UsesBuiltin := by
    rcases reached used h with h | h <;> rw [h] at kind <;> cases kind
    exact ⟨fun predicate mem => (by cases mem), fun predicate mem => by cases mem; exact .head _⟩
  have inner : Json.Reordered True (.obj [("p", .int 1), ("q", .null)])
      (.obj [("q", .null), ("p", .int 1)]) :=
    .obj (.of_perm trivial (.swap _ _ []) (by decide)) (.self fun _ _ => .refl _)
  have same : Json.Reordered True value value' :=
    .obj (.swap trivial (by decide) _)
      (.cons inner (.cons (.refl _) (.cons (.refl _) .nil)))
  have left : (root.place.cast 2 (.ofContext [] : Resolver Unit) value ()).1 = .ok data := rfl
  have right : (root.place.cast 2 (.ofContext [] : Resolver Unit) value' ()).1 = .ok data' := rfl
  have alike := (endsAlike_of_reordered builtin same () ()).2.1 2 2
  rw [left, right] at alike
  cases alike (by rintro ⟨⟩) (by rintro ⟨⟩) with
  | ok h => exact ⟨left, right, h⟩

/-- Where one schema is given for all fields, a fault of the first field is the end of the run. -/
theorem Place.validate_of_first_field {node : Node} {fuel : Nat} {value : Json} {fault : Fault}
    {s : σ} (h : ∀ log, ∃ log', node.check fuel value ⟨.ofContext context, []⟩ (log, s) =
      (.error fault, log', s)) (key : String) (rest : Entries Json) :
    ((⟨{}, .hash { additional := .schema node }⟩ : Node).place.validate (fuel + 1)
      (.ofContext context) (.obj ((key, value) :: rest)) s).1 = .error fault := by
  let rules : HashRules := { additional := .schema node }
  let fields : Entries Json := (key, value) :: rest
  let start : ErrorLog := (rules.sizeViolations fields).foldl
    (fun log violation => log.record violation.message) {}
  obtain ⟨log', broken⟩ := h (start.enter (.key key))
  have sizes : Check.recordAll (rules.sizeViolations fields) (({} : ErrorLog), s) =
      (.ok (), start, s) := Check.forM_record id _ _ _
  have first : rules.checkExtra (Node.check fuel) ⟨.ofContext context, []⟩ (key, value) (start, s) =
      (.error fault, log'.leave, s) := Check.within_apply broken
  have fields : rules.validate (Node.check fuel) fields ⟨.ofContext context, []⟩ ({}, s) =
      (.error fault, log'.leave, s) :=
    (Run.bind_ok sizes).trans ((Run.bind_ok rfl).trans ((Run.bind_ok rfl).trans
      (Run.bind_error (Run.bind_error first))))
  exact congrArg Prod.fst (Check.trial_apply ((Run.bind_ok rfl).trans fields))

/-- Two fields, of which one refers to nothing and the other one to a schema that stands for itself.
Whichever comes first decides whether the validation breaks off or goes on for ever. -/
theorem endsAlike_of_reordered_loop :
    let loop : Node := ⟨{}, .reference "loop"⟩
    let pair : Node := ⟨{}, .array { items := .tuple [loop, ⟨{}, .reference "missing"⟩] }⟩
    let root : Node := ⟨{}, .hash { additional := .schema pair }⟩
    let context : Context := [("loop", loop)]
    let broken : String × Json := ("a", .arr [.null, .int 1])
    let endless : String × Json := ("b", .arr [.int 1, .null])
    Json.Reordered True (.obj [broken, endless]) (.obj [endless, broken]) ∧
      (root.place.validate 4 (.ofContext context : Resolver Unit) (.obj [broken, endless]) ()).1 =
        .error (.schema (.unresolvedReference "missing")) ∧
      ∀ fuel, (root.place.validate fuel (.ofContext context : Resolver Unit)
        (.obj [endless, broken]) ()).1 = .error .exhausted := by
  intro loop pair root context broken endless
  have reordered : Json.Reordered True (.obj [broken, endless]) (.obj [endless, broken]) :=
    .obj (.of_perm trivial (.swap _ _ []) (by decide)) (.self fun _ _ => .refl _)
  refine ⟨reordered, ?_, fun fuel => ?_⟩
  · exact Place.validate_of_first_field (fun log => ⟨_, rfl⟩) "a" [endless]
  cases fuel with
  | zero => rfl
  | succ fuel =>
    refine Place.validate_of_first_field (fun log => ?_) "b" [broken]
    rcases fuel with _ | _ | fuel
    · exact ⟨_, rfl⟩
    · exact ⟨_, rfl⟩
    · have first : Check.within (.index 0) (loop.check (fuel + 1) (.int 1) ⟨.ofContext context, []⟩)
          (log, ()) = (.error .exhausted, (log.enter (.index 0)).leave, ()) :=
        Check.within_apply (Node.check_of_circular rfl _ rfl _ _)
      exact ⟨_, (Run.bind_ok rfl).trans ((Run.bind_ok rfl).trans (Run.bind_error
        (Run.bind_error first)))⟩

end SchemaCast
