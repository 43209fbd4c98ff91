import SchemaCast.Proofs.Acceptance
import SchemaCast.Proofs.Recursion
import SchemaCast.Proofs.Settling

/-!
# Casts of valid values

A validation does not look at everything that a cast of the same value looks at: it stops searching
an array at the first element that is as `contains` asks, and it never sees what one alternative of
an `allOf` makes of a value before the next one is applied. Only there can the cast of a valid value
break off with an error, and only there can it go on for ever; where neither can happen, it has a
result.
-/
namespace SchemaCast

variable {σ : Type} {context : Context}

namespace Place

/-- A place that a cast tries or applies to values on which no validation has tried it. -/
inductive Probes (place : Place) : Place → Prop where
  | contains {rules : ArrayRules} {node : Node} (kind : place.node.kind = .array rules)
      (search : rules.contains = some node) : Probes place ⟨node, place.inner⟩
  | alternative {alternatives : List Node} {blankAsNull : Bool} {node : Node}
      (kind : place.node.kind = .combination .allOf alternatives blankAsNull)
      (later : node ∈ alternatives.tail) : Probes place ⟨node, place.inner⟩

theorem Probes.step {place probed : Place} (h : place.Probes probed) :
    place.Step context probed := by
  cases h with
  | contains kind search => exact .child (place.node.mem_children_of_contains kind search)
  | alternative kind later =>
    exact .child (by simpa [Node.children, kind] using List.mem_of_mem_tail later)

/-- Every value is validated and cast at a place to the end, within some bound on the depth. -/
def Ends (context : Context) (place : Place) : Prop :=
  ∀ value, ∃ bound, (place.validate bound (.ofContext context) value ()).1 ≠ .error .exhausted ∧
    (place.cast bound (.ofContext context) value ()).1 ≠ .error .exhausted

variable {place : Place} {bound : Nat} {value : Json} {Q : σ → Prop} {E : Fault → Prop}

/-- If no default can be met, and no chain of alternatives and references comes back to where it
began, then every value is validated and cast to the end at every place that can be reached. -/
theorem ends_of_undefaulted {root : Node}
    (undefaulted : ∀ place, root.place.Reaches context place → place.node.default? = none)
    (guarded : ∀ place, root.place.Reaches context place →
      ¬ Relation.TransGen (Idles context) place place)
    (reached : root.place.Reaches context place) : place.Ends context := by
  intro value
  let limit := root.size + Schema.sizeNamed context
  have few (place : Place) (reached : root.place.Reaches context place) :
      (place.ahead context).ncard ≤ limit := ncard_ahead_le reached
  have checks := check_ends_of_undefaulted (σ := Unit) undefaulted guarded few reached
    (Nat.lt_succ_self (place.effort context limit value))
  have casts := cast_ends_of_undefaulted (σ := Unit) undefaulted guarded few reached
    (Nat.lt_succ_self (place.effort context limit value))
  exact ⟨_, fun cut => ((uncut Unit).run_trial checks () trivial).2.2 _ cut rfl,
    fun cut => (casts () trivial).2.2 _ cut rfl⟩

/-- A validation that comes to a log with some bound comes to one with any other, or is cut off. -/
theorem EndsBy.holds_validate (h : place.EndsBy context bound value) (other : Nat) :
    (place.validate other (.ofContext context : Resolver σ) value).Holds (fun _ => True)
      (fun fault => fault = .exhausted ∧ other < bound) fun _ => True := by
  obtain ⟨log, hlog⟩ := h
  intro s _
  refine ⟨trivial, fun _ _ => trivial, fun fault hfault => ?_⟩
  have ended : (place.validate bound (.ofContext context) value s).1 = .ok log := by
    rw [← hlog]
    exact place.validate_state bound value s ()
  -- The greater of the two bounds does what the smaller one does, unless that one is cut off.
  by_cases less : other < bound
  · refine ⟨?_, less⟩
    cases fault with
    | exhausted => rfl
    | schema error =>
      rw [place.validate_of_le value (Nat.le_of_lt less) (by rw [hfault]; intro h; cases h),
        hfault] at ended
      cases ended
  · rw [place.validate_of_le value (Nat.le_of_not_lt less) (by rw [ended]; intro h; cases h),
      ended] at hfault
    cases hfault

/-- Where a validation has come to a log, only the search for an element as `contains` asks, the
trials of the alternatives and the casts by further alternatives are left to look after. -/
theorem Explored.ready {Sat : Place → Json → Prop} {checkNode : NodeCheck σ}
    {castNode : NodeCast σ} {seen : Json} (explored : place.Explored context bound seen)
    (searched : ∀ rules, place.node.kind = .array rules → ∀ node ∈ rules.contains, ∀ item,
      (Check.trial (checkNode node item ⟨.ofContext context, place.inner⟩)).Holds Q E
        fun log => log.isEmpty →
          (castNode node item ⟨.ofContext context, place.inner⟩).Holds Q E fun _ => True)
    (tried : ∀ node, (⟨node, place.inner⟩ : Place).EndsBy context bound seen →
      (Check.trial (checkNode node seen ⟨.ofContext context, place.inner⟩)).Holds Q E
        fun log => log.isEmpty → Sat ⟨node, place.inner⟩ seen)
    (applied : ∀ alternatives blankAsNull,
      place.node.kind = .combination .allOf alternatives blankAsNull →
        ∀ node ∈ alternatives.tail, ∀ output,
          (castNode node output ⟨.ofContext context, place.inner⟩).Holds Q E fun _ => True) :
    place.Ready context Sat checkNode castNode Q E seen where
  looked rules kind fields hseen name listed taken := by
    obtain ⟨target, properties, offers⟩ := explored.offers rules kind fields hseen name listed
    rw [HashRules.includedBy_of_offers offers]
    exact .pure trivial
  searched := searched
  tried combinator alternatives blankAsNull kind node mem :=
    tried node (explored.ends combinator alternatives blankAsNull kind node mem)
  applied := applied

/-- A fault that the cast of a valid value may end with: the run is cut off, or the reason for the
error can be reached from a place that is probed. -/
def ProbeFault (context : Context) (place : Place) (fault : Fault) : Prop :=
  ∀ error, fault = .schema error → ∃ used probed, place.Reaches context used ∧
    used.Probes probed ∧ probed.CanBreak context error

theorem probeFault_exhausted : place.ProbeFault context .exhausted := fun _ same => by cases same

/-- A run that breaks off in a probed place only. -/
theorem holds_probeFault {α : Type} {x : Run σ α}
    (h : ∀ s error, (x s).1 = .error (.schema error) → ∃ used probed,
      place.Reaches context used ∧ used.Probes probed ∧ probed.CanBreak context error) :
    x.Holds (fun _ => True) (place.ProbeFault context) fun _ => True := by
  intro s _
  refine ⟨trivial, fun _ _ => trivial, fun fault hfault error same => h s error ?_⟩
  rw [hfault, same]

/-- If the cast of an accepted value breaks off with an error, then in a place that is probed. -/
theorem Accepts.holds_cast {root : Place} (more : Nat) (reached : root.Reaches context place)
    (h : place.Accepts context value) :
    (place.cast more (.ofContext context : Resolver σ) value).Holds (fun _ => True)
      (root.ProbeFault context) fun _ => True := by
  induction more generalizing place value with
  | zero => exact .exhausted probeFault_exhausted
  | succ more ih =>
    obtain ⟨bound, accepts⟩ := h.exists_succ
    have searched (rules : ArrayRules) (kind : place.node.kind = .array rules) (node : Node)
        (search : node ∈ rules.contains) (item : Json) :
        ((⟨node, place.inner⟩ : Place).validate more (.ofContext context : Resolver σ) item).Holds
          (fun _ => True) (root.ProbeFault context) fun log => log.isEmpty →
            ((⟨node, place.inner⟩ : Place).cast more (.ofContext context : Resolver σ) item).Holds
              (fun _ => True) (root.ProbeFault context) fun _ => True := by
      refine (holds_probeFault fun s error broken => ?_).imp fun log _ _ =>
        holds_probeFault fun s error broken => ?_
      · exact ⟨place, _, reached, .contains kind search, canBreak_of_validate broken⟩
      · exact ⟨place, _, reached, .contains kind search, canBreak_of_cast broken⟩
    have tried (node : Node) (seen : Json)
        (ends : (⟨node, place.inner⟩ : Place).EndsBy context bound seen) :
        ((⟨node, place.inner⟩ : Place).validate more (.ofContext context : Resolver σ) seen).Holds
          (fun _ => True) (root.ProbeFault context) fun log => log.isEmpty →
            Accepts context ⟨node, place.inner⟩ seen := by
      have holds := (ends.holds_validate (σ := σ) more).and_gives
        (tells_accepts more ⟨node, place.inner⟩ seen).trial
      refine (holds.imp fun log hlog => hlog.2.mp).faults fun fault hfault => ?_
      rw [hfault.1]
      exact probeFault_exhausted
    have applied (alternatives : List Node) (blankAsNull : Bool)
        (kind : place.node.kind = .combination .allOf alternatives blankAsNull) (node : Node)
        (later : node ∈ alternatives.tail) (output : Json) :
        ((⟨node, place.inner⟩ : Place).cast more (.ofContext context : Resolver σ) output).Holds
          (fun _ => True) (root.ProbeFault context) fun _ => True :=
      holds_probeFault fun s error broken =>
        ⟨place, _, reached, .alternative kind later, canBreak_of_cast broken⟩
    refine holds_castWith (fun target step value accepts => ih (reached.tail step) accepts) h.meets
      fun seen present => ?_
    have explored : place.Explored context bound seen := explored accepts.endsBy present
    exact explored.ready searched (fun node ends => tried node seen ends) applied

/-- Without anything to probe, the cast of an accepted value ends within the bound of the
validation. -/
theorem AcceptsBy.holds_cast {root : Place}
    (plain : ∀ used probed, root.Reaches context used → ¬ used.Probes probed)
    (reached : root.Reaches context place) (h : place.AcceptsBy context bound value) :
    (place.cast bound (.ofContext context : Resolver σ) value).Holds (fun _ => True)
      (fun _ => False) fun _ => True := by
  induction bound generalizing place value with
  | zero => obtain ⟨log, hlog, _⟩ := h; cases hlog
  | succ bound ih =>
    have met : place.Meets context (AcceptsBy context bound) value :=
      h.meets (tells_acceptsBy bound)
    have unsearched (rules : ArrayRules) (kind : place.node.kind = .array rules) (node : Node)
        (search : node ∈ rules.contains) : False :=
      plain place _ reached (.contains kind search)
    have unapplied (alternatives : List Node) (blankAsNull : Bool)
        (kind : place.node.kind = .combination .allOf alternatives blankAsNull) (node : Node)
        (later : node ∈ alternatives.tail) : False :=
      plain place _ reached (.alternative kind later)
    have tried (node : Node) (seen : Json)
        (ends : (⟨node, place.inner⟩ : Place).EndsBy context bound seen) :
        ((⟨node, place.inner⟩ : Place).validate bound (.ofContext context : Resolver σ) seen).Holds
          (fun _ => True) (fun _ => False) fun log => log.isEmpty →
            AcceptsBy context bound ⟨node, place.inner⟩ seen := by
      have holds := (ends.holds_validate (σ := σ) bound).and_gives
        (tells_acceptsBy bound ⟨node, place.inner⟩ seen).trial
      exact (holds.imp fun log hlog => hlog.2.mp).faults fun fault hfault =>
        Nat.lt_irrefl bound hfault.2
    refine holds_castWith (fun target step value accepts => ih (reached.tail step) accepts) met
      fun seen present => ?_
    have explored : place.Explored context bound seen := explored h.endsBy present
    exact explored.ready (fun rules kind node search _ => (unsearched rules kind node search).elim)
      (fun node ends => tried node seen ends)
      fun alternatives blankAsNull kind node later _ =>
        (unapplied alternatives blankAsNull kind node later).elim

/-- Nothing that can be reached from a place that is probed makes a run break off, and every value
is validated and cast there to the end. -/
def ProbesEnd (context : Context) (root : Place) : Prop :=
  ∀ used probed, root.Reaches context used → used.Probes probed →
    (∀ error, ¬ probed.CanBreak context error) ∧ probed.Ends context

theorem probesEnd_of_undefaulted {root : Node}
    (undefaulted : ∀ place, root.place.Reaches context place → place.node.default? = none)
    (guarded : ∀ place, root.place.Reaches context place →
      ¬ Relation.TransGen (Idles context) place place)
    (leads : ∀ used, root.place.Reaches context used → ∀ error, ¬ used.DeadEnd context error) :
    root.place.ProbesEnd context := by
  intro used probed reached probes
  have reached : root.place.Reaches context probed := reached.tail probes.step
  refine ⟨fun error broken => ?_, ends_of_undefaulted undefaulted guarded reached⟩
  obtain ⟨place, further, deadEnd⟩ := broken
  exact leads place (reached.trans further) error deadEnd

/-- Without names, included hashes and defaults, whatever is probed comes to an end. -/
theorem probesEnd_of_nameless {root : Node}
    (undefaulted : ∀ place, root.place.Reaches context place → place.node.default? = none)
    (nameless : ∀ place, root.place.Reaches context place → place.node.kind.referenced = []) :
    root.place.ProbesEnd context := by
  refine probesEnd_of_undefaulted undefaulted (guarded_of_nameless nameless)
    fun used reached error deadEnd => ?_
  have none := nameless used reached
  cases deadEnd with
  | unresolved referenced => simp [none] at referenced
  | notHash kind listed => simp_all [Kind.referenced]

section Probed

variable {probed : Place} (unbroken : ∀ error, ¬ probed.CanBreak context error)
  (ends : probed.Ends context)

include unbroken ends in
theorem exists_validate_of_ends (value : Json) :
    ∃ bound log, (probed.validate bound (.ofContext context) value ()).1 = .ok log := by
  obtain ⟨bound, uncut, _⟩ := ends value
  refine ⟨bound, ?_⟩
  cases given : (probed.validate bound (.ofContext context) value ()).1 with
  | ok log => exact ⟨log, rfl⟩
  | error fault =>
    cases fault with
    | exhausted => exact absurd given uncut
    | schema error => exact absurd (canBreak_of_validate given) (unbroken error)

include unbroken ends in
theorem exists_cast_of_ends (value : Json) :
    ∃ bound output, (probed.cast bound (.ofContext context) value ()).1 = .ok output := by
  obtain ⟨bound, _, uncut⟩ := ends value
  refine ⟨bound, ?_⟩
  cases given : (probed.cast bound (.ofContext context) value ()).1 with
  | ok output => exact ⟨output, rfl⟩
  | error fault =>
    cases fault with
    | exhausted => exact absurd given uncut
    | schema error => exact absurd (canBreak_of_cast given) (unbroken error)

end Probed

section Settled

variable {root : Place} (probesEnd : root.ProbesEnd context) (reached : root.Reaches context place)

include probesEnd reached in
theorem holds_castSettled_of_probes {probed : Place} (probes : place.Probes probed)
    (output : Json) :
    (Node.castSettled context probed.node output (probed.scope (.ofContext context))).Holds
      (fun _ => True) (fun _ => False) fun _ => True := by
  obtain ⟨unbroken, ends⟩ := probesEnd place probed reached probes
  obtain ⟨_, _, given⟩ := exists_cast_of_ends unbroken ends output
  exact holds_castSettled given

include probesEnd reached in
theorem holds_trial_checkSettled_of_probes {probed : Place} (probes : place.Probes probed)
    (item : Json) :
    (Check.trial (Node.checkSettled context probed.node item
      (probed.scope (.ofContext context)))).Holds (fun _ => True) (fun _ => False)
      fun _ => True := by
  obtain ⟨unbroken, ends⟩ := probesEnd place probed reached probes
  obtain ⟨_, _, given⟩ := exists_validate_of_ends unbroken ends item
  exact (holds_trial_checkSettled given).imp fun _ _ => trivial

/-- Where a validation has come to a log, a trial with the bound that it takes tells the same. -/
theorem EndsBy.holds_trial_settled (h : place.EndsBy context bound value) :
    (Check.trial (Node.checkSettled context place.node value
      (place.scope (.ofContext context)))).Holds (fun _ => True) (fun _ => False)
      fun log => log.isEmpty → place.AcceptsBy context bound value := by
  obtain ⟨log, given⟩ := h
  refine (holds_trial_checkSettled given).imp fun found same empty => ⟨log, given, ?_⟩
  rw [← same]
  exact empty

include probesEnd reached in
/-- If all runs at the places that are probed come to an end, then so does the cast of an accepted
value, under a bound that may be greater than the one of the validation. -/
theorem AcceptsBy.exists_cast (h : place.AcceptsBy context bound value) :
    ∃ more output, (place.cast more (.ofContext context) value ()).1 = .ok output := by
  induction bound generalizing place value with
  | zero => obtain ⟨log, hlog, _⟩ := h; cases hlog
  | succ bound ih =>
    have met : place.Meets context (AcceptsBy context bound) value :=
      h.meets (tells_acceptsBy bound)
    have casts (target : Place) (step : place.Step context target) (value : Json)
        (accepts : target.AcceptsBy context bound value) :
        (Node.castSettled context target.node value (target.scope (.ofContext context))).Holds
          (fun _ => True) (fun _ => False) fun _ => True := by
      obtain ⟨_, _, given⟩ := ih (reached.tail step) accepts
      exact holds_castSettled given
    have holds : (place.node.castWith (Node.checkSettled context) (Node.castSettled context) value
        (place.scope (.ofContext context))).Holds (fun _ => True) (fun _ => False)
          fun _ => True := by
      refine holds_castWith casts met fun seen present => ?_
      have explored : place.Explored context bound seen := explored h.endsBy present
      refine explored.ready (fun rules kind node search item => ?_)
        (fun node ends => ends.holds_trial_settled)
        fun alternatives blankAsNull kind node later output =>
          holds_castSettled_of_probes probesEnd reached (.alternative kind later) output
      have probes : place.Probes ⟨node, place.inner⟩ := .contains kind search
      exact (holds_trial_checkSettled_of_probes probesEnd reached probes item).imp fun _ _ _ =>
        holds_castSettled_of_probes probesEnd reached probes item
    cases given : (place.node.castWith (Node.checkSettled context) (Node.castSettled context) value
        (place.scope (.ofContext context)) 0).1 with
    | error fault => exact ((holds 0 trivial).2.2 fault given).elim
    | ok output =>
      obtain ⟨more, found⟩ := exists_cast_of_settled given
      exact ⟨more, output, found⟩

end Settled

/-- If the cast of a valid value breaks off with an error, then the reason for the error can be
reached from a place that is probed. If nothing that can be reached from there is such a reason, and
all runs there come to an end, then the cast has a result: one and the same under some bound and
under all greater ones. If nothing is probed at all, that is without `contains` and without a second
alternative of an `allOf`, then no greater bound is needed than for the validation. -/
theorem cast_of_valid {s : σ} {log : ErrorLog}
    (valid : (place.validate bound (.ofContext context) value s).1 = .ok log)
    (empty : log.isEmpty) :
    (∀ (more : Nat) (t : σ) (error : SchemaError),
      (place.cast more (.ofContext context) value t).1 = .error (.schema error) →
        ∃ used probed, place.Reaches context used ∧ used.Probes probed ∧
          probed.CanBreak context error) ∧
    (place.ProbesEnd context → ∃ least data, ∀ more ≥ least, ∀ t : σ,
      (place.cast more (.ofContext context) value t).1 = .ok data) ∧
    ((∀ used probed, place.Reaches context used → ¬ used.Probes probed) →
      ∀ more ≥ bound, ∀ t : σ, ∃ data,
        (place.cast more (.ofContext context) value t).1 = .ok data) := by
  have accepts : place.AcceptsBy context bound value := acceptsBy_of_validate valid empty
  refine ⟨?_, ?_, ?_⟩
  · intro more t error broken
    have holds := Accepts.holds_cast (σ := σ) more .refl ⟨bound, accepts⟩
    exact (holds t trivial).2.2 _ broken error rfl
  · intro probesEnd
    obtain ⟨least, data, given⟩ := accepts.exists_cast probesEnd .refl
    refine ⟨least, data, fun more enough t => ?_⟩
    rw [place.cast_state more value t (),
      place.cast_of_le value enough (by rw [given]; rintro ⟨⟩), given]
  · intro plain more h t
    have holds := AcceptsBy.holds_cast (σ := σ) plain .refl accepts
    rcases hc : place.cast bound (.ofContext context) value t with ⟨fault | data, t'⟩
    · exact ((holds t trivial).2.2 fault (by rw [hc])).elim
    · refine ⟨data, ?_⟩
      rw [place.cast_of_le value h (by rw [hc]; intro h; cases h), hc]

/-- A search for texts that spell a whole number. The validation stops at the first one; the cast
goes on, and casts what it finds twice. -/
theorem cast_of_valid_search :
    let count : Node := ⟨{}, .integer { castText := true }⟩
    let size : Node := ⟨{}, .number { castText := true }⟩
    let both : Node := ⟨{}, .combination .allOf [count, size] false⟩
    let root : Node := ⟨{}, .array { items := .any, contains := some both }⟩
    let value : Json := .arr [.str "5", .str "x", .str "7"]
    (root.place.validate 3 (.ofContext [] : Resolver Unit) value ()).1 = .ok {} ∧
      ∃ least, ∀ more ≥ least, (root.place.cast more (.ofContext [] : Resolver Unit) value ()).1 =
        .ok (.arr [.int 5, .str "x", .int 7]) := by
  intro count size both root value
  have valid : (root.place.validate 3 (.ofContext [] : Resolver Unit) value ()).1 = .ok {} := rfl
  let nodes : List Node := [root, both, count, size]
  have closed (node : Node) (mem : node ∈ nodes) :
      node.children ⊆ nodes ∧ node.definitions = [] := by
    simp only [nodes, List.mem_cons, List.not_mem_nil, or_false] at mem
    rcases mem with rfl | rfl | rfl | rfl <;>
      exact ⟨by simp [nodes, Node.children, root, both, count, size], rfl⟩
  have bare (node : Node) (mem : node ∈ nodes) :
      node.default? = none ∧ node.kind.referenced = [] := by
    simp only [nodes, List.mem_cons, List.not_mem_nil, or_false] at mem
    rcases mem with rfl | rfl | rfl | rfl <;> exact ⟨rfl, rfl⟩
  have reached (used : Place) (h : root.place.Reaches [] used) : used.node ∈ nodes :=
    (mem_of_reaches closed (by simp) List.mem_cons_self h).1
  have probesEnd : root.place.ProbesEnd [] :=
    probesEnd_of_nameless (fun used h => (bare _ (reached used h)).1)
      fun used h => (bare _ (reached used h)).2
  obtain ⟨least, data, given⟩ := (cast_of_valid valid rfl).2.1 probesEnd
  have cast : (root.place.cast 4 (.ofContext [] : Resolver Unit) value ()).1 =
      .ok (.arr [.int 5, .str "x", .int 7]) := rfl
  have same : data = .arr [.int 5, .str "x", .int 7] := by
    have there := given (max least 4) (Nat.le_max_left ..) ()
    rw [root.place.cast_of_le value (Nat.le_max_right ..) (by rw [cast]; rintro ⟨⟩), cast] at there
    exact (Except.ok.inj there).symm
  subst same
  exact ⟨valid, least, fun more enough => given more enough ()⟩

/-- The search for an element as `contains` asks ends at the empty object, but the cast goes on to
the next one; and the first alternative of an `allOf` gives the second one a value for a property
that refers to nothing. Where the search asks for a name that stands for itself, the cast of the
second element goes on for ever. -/
theorem cast_of_valid_broken :
    let missing : Node := ⟨{}, .hash { properties := [("x", ⟨{}, .reference "missing"⟩)] }⟩
    let filled : Node :=
      ⟨{}, .hash { properties := [("x", ⟨{ default := some (.str "s") }, .string {}⟩)] }⟩
    let search : Node := ⟨{}, .array { items := .any, contains := some missing }⟩
    let items : Json := .arr [.obj [], .obj [("x", .int 1)]]
    let all : Node := ⟨{}, .combination .allOf [filled, missing] false⟩
    let loop : Node := ⟨{}, .reference "loop"⟩
    let endless : Node := ⟨{}, .array { items := .any, contains := some loop }⟩
    ((search.validate (.ofContext [] : Resolver Unit) items ()).1 = .ok {} ∧
      (search.cast (.ofContext [] : Resolver Unit) items ()).1 =
        .error (.schema (.unresolvedReference "missing"))) ∧
    ((all.validate (.ofContext [] : Resolver Unit) (.obj []) ()).1 = .ok {} ∧
      (all.cast (.ofContext [] : Resolver Unit) (.obj []) ()).1 =
        .error (.schema (.unresolvedReference "missing"))) ∧
    (endless.validate (.ofContext [("loop", loop)] : Resolver Unit) (.arr [.null, .int 1]) ()).1 =
        .ok {} ∧
      ∀ bound, (endless.place.cast bound (.ofContext [("loop", loop)] : Resolver Unit)
        (.arr [.null, .int 1]) ()).1 = .error .exhausted := by
  intro missing filled search items all loop endless
  refine ⟨⟨rfl, rfl⟩, ⟨rfl, rfl⟩, rfl, fun bound => ?_⟩
  rcases bound with _ | _ | bound
  · rfl
  · rfl
  · let scope : Scope Unit := ⟨.ofContext [("loop", loop)], []⟩
    let rules : ArrayRules := { items := .any, contains := some loop }
    have searched : Check.trial (loop.check (bound + 1) (.int 1) scope) () =
        (.error .exhausted, ()) := Check.trial_apply (Node.check_of_circular rfl _ rfl {} ())
    have second : rules.castItem (Node.check (bound + 1)) (Node.castTo (bound + 1)) scope 1 (.int 1)
        () = (.error .exhausted, ()) := Run.bind_error searched
    have rest : rules.castItems (Node.check (bound + 1)) (Node.castTo (bound + 1)) scope 1 [.int 1]
        () = (.error .exhausted, ()) := Run.bind_error second
    have every : rules.castItems (Node.check (bound + 1)) (Node.castTo (bound + 1)) scope 0
        [.null, .int 1] () = (.error .exhausted, ()) :=
      (Run.bind_ok rfl).trans (Run.bind_error rest)
    exact congrArg Prod.fst (Run.bind_error every)

end Place

variable {node : Node} {value : Json} {s : σ} {log : ErrorLog}

/-- Validating and casting in one go comes to the cast form of a valid value. -/
theorem Node.castStrictly_of_valid
    (valid : (node.validate (.ofContext context) value s).1 = .ok log) (empty : log.isEmpty)
    (plain : ∀ used probed, node.place.Reaches context used → ¬ used.Probes probed) :
    ∃ data, (node.castStrictly (.ofContext context) value s).1 = .ok (.ok data) := by
  have accepts : node.place.AcceptsBy context (node.depthBound _ value) value :=
    Place.acceptsBy_of_validate valid empty
  have holds := Place.AcceptsBy.holds_cast (σ := σ) plain .refl accepts
  rcases hv : node.validate (.ofContext context) value s with ⟨r, t⟩
  rw [hv] at valid
  cases valid
  rcases hc : node.cast (.ofContext context) value t with ⟨fault | data, t'⟩
  · exact ((holds t trivial).2.2 fault (congrArg Prod.fst hc)).elim
  · refine ⟨data, ?_⟩
    unfold castStrictly
    rw [Run.bind_ok hv, empty, if_pos rfl, Run.bind_ok hc]
    rfl

end SchemaCast
