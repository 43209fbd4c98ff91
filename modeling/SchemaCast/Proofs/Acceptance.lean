import SchemaCast.Proofs.Validity

/-!
# Accepted values

A place accepts a value if some bound lets a validation of its own come to an empty log. A
validation that ends has been through more than the log shows: every include has been looked up, and
every alternative has been tried to the end.
-/
namespace SchemaCast

variable {σ : Type} {context : Context}

namespace Place

/-- A validation of its own comes to a log within a bound. -/
def EndsBy (context : Context) (bound : Nat) (place : Place) (value : Json) : Prop :=
  ∃ log, (place.validate bound (.ofContext context) value ()).1 = .ok log

/-- A validation of its own comes to an empty log within a bound. -/
def AcceptsBy (context : Context) (bound : Nat) (place : Place) (value : Json) : Prop :=
  ∃ log, (place.validate bound (.ofContext context) value ()).1 = .ok log ∧ log.isEmpty

/-- A validation of its own comes to an empty log. -/
def Accepts (context : Context) (place : Place) (value : Json) : Prop :=
  ∃ bound, place.AcceptsBy context bound value

variable {bound : Nat} {place : Place} {value : Json}

theorem endsBy_of_check {log log' : ErrorLog} {s s' : σ} {u : Unit}
    (h : place.node.check bound value (place.scope (.ofContext context)) (log, s) =
      (.ok u, log', s')) : place.EndsBy context bound value := by
  rcases h' : place.node.check bound value (place.scope (.ofContext context)) ({}, ()) with
    ⟨r, inner, t⟩
  have same : (place.node.check bound value (place.scope (.ofContext context)) (log, s)).1 =
      (place.node.check bound value (place.scope (.ofContext context)) ({}, ())).1 :=
    check_state place bound value log s {} ()
  rw [h, h'] at same
  subst same
  exact ⟨inner, by rw [validate, Check.trial_apply h']; rfl⟩

theorem acceptsBy_iff (h : place.EndsBy context bound value) :
    place.AcceptsBy context bound value ↔ place.Satisfies context value := by
  obtain ⟨log, hlog⟩ := h
  rw [← isEmpty_iff_satisfies hlog]
  constructor
  · intro h
    obtain ⟨log', hlog', empty⟩ := h
    rw [hlog] at hlog'
    cases hlog'
    exact empty
  · exact fun empty => ⟨log, hlog, empty⟩

theorem Accepts.satisfies (h : place.Accepts context value) : place.Satisfies context value := by
  obtain ⟨bound, log, hlog, empty⟩ := h
  exact (isEmpty_iff_satisfies hlog).mp empty

/-- A check within a bound tells whether the place accepts the value within that bound. -/
theorem tells_acceptsBy (bound : Nat) (place : Place) (value : Json) :
    (place.node.check bound value (place.scope (.ofContext context : Resolver σ))).Tells
      (fun _ => True) (place.AcceptsBy context bound value) := by
  intro log s u log' s' heq
  rw [acceptsBy_iff (endsBy_of_check heq)]
  exact tells_satisfies bound place value log s u log' s' heq

/-- A check within a bound tells whether the place accepts the value at all. -/
theorem tells_accepts (bound : Nat) (place : Place) (value : Json) :
    (place.node.check bound value (place.scope (.ofContext context : Resolver σ))).Tells
      (fun _ => True) (place.Accepts context value) := by
  intro log s u log' s' heq
  have iff : place.Accepts context value ↔ place.Satisfies context value :=
    ⟨Accepts.satisfies, fun h => ⟨bound, (acceptsBy_iff (endsBy_of_check heq)).mpr h⟩⟩
  rw [iff]
  exact tells_satisfies bound place value log s u log' s' heq

theorem AcceptsBy.endsBy (h : place.AcceptsBy context bound value) :
    place.EndsBy context bound value := by
  obtain ⟨log, hlog, _⟩ := h
  exact ⟨log, hlog⟩

/-- If the checks of the inner nodes tell what it is to satisfy them, then an accepted value meets
the rules of the place. -/
theorem AcceptsBy.meets {Sat : Place → Json → Prop} (h : place.AcceptsBy context (bound + 1) value)
    (tells : ∀ (target : Place) (value : Json), (target.node.check bound value
      (target.scope (.ofContext context : Resolver Unit))).Tells (fun _ => True)
        (Sat target value)) : place.Meets context Sat value := by
  obtain ⟨log, hlog, empty⟩ := h
  have told : (place.node.check (bound + 1) value (place.scope (.ofContext context))).Tells
      (fun _ => True) (place.Meets context Sat value) :=
    tells_checkWith (fun target _ value => tells target value) value
  exact ((told.trial () trivial).2.1 log hlog).mp empty

theorem acceptsBy_of_validate {s : σ} {log : ErrorLog}
    (valid : (place.validate bound (.ofContext context) value s).1 = .ok log)
    (empty : log.isEmpty) : place.AcceptsBy context bound value := by
  refine ⟨log, ?_, empty⟩
  rw [← valid]
  exact place.validate_state bound value () s

/-- Nothing is accepted within no bound at all. -/
theorem Accepts.exists_succ (h : place.Accepts context value) :
    ∃ bound, place.AcceptsBy context (bound + 1) value := by
  obtain ⟨bound, accepts⟩ := h
  cases bound with
  | zero => obtain ⟨log, hlog, _⟩ := accepts; cases hlog
  | succ bound => exact ⟨bound, accepts⟩

/-- An accepted value meets the rules of the place, where the places inside accept what they ask. -/
theorem Accepts.meets (h : place.Accepts context value) :
    place.Meets context (Accepts context) value := by
  obtain ⟨bound, accepts⟩ := h.exists_succ
  exact accepts.meets (tells_accepts bound)

/-- What a validation has been through when it comes to a log: the includes of a hash lead to
hashes, and the trials of the alternatives of a combination have come to logs. -/
structure Explored (context : Context) (bound : Nat) (place : Place) (value : Json) : Prop where
  offers : ∀ rules, place.node.kind = .hash rules → ∀ fields, value = .obj fields →
    ∀ name ∈ rules.includes, ∃ target properties,
      HashRules.Offers context place name target properties
  ends : ∀ combinator alternatives blankAsNull,
    place.node.kind = .combination combinator alternatives blankAsNull →
      ∀ node ∈ alternatives, (⟨node, place.inner⟩ : Place).EndsBy context bound value

theorem offers_of_checkIncludes {checkNode : NodeCheck σ} {rules : HashRules}
    {fields : Entries Json} {names taken taken' : List String} {log log' : ErrorLog} {s s' : σ}
    (h : HashRules.checkIncludes checkNode rules fields ⟨.ofContext context, place.inner⟩ taken
      names (log, s) = (.ok taken', log', s')) :
    ∀ name ∈ names, ∃ target properties, HashRules.Offers context place name target properties := by
  induction names generalizing taken log s with
  | nil => simp
  | cons name rest ih =>
    obtain ⟨⟨fresh, scope⟩, ⟨log₁, s₁⟩, hfound, h⟩ := Run.bind_eq_ok h
    obtain ⟨_, ⟨log₂, s₂⟩, _, h⟩ := Run.bind_eq_ok h
    obtain ⟨target, properties, offers, _⟩ :=
      (Check.Tells.ofRun (HashRules.gives_includedBy rules taken name) log s _ log₁ s₁ hfound).1
    intro other mem
    rcases List.mem_cons.mp mem with rfl | mem
    · exact ⟨target, properties, offers⟩
    · exact ih h other mem

theorem endsBy_of_trials {alternatives : List Node} {logs : List ErrorLog} {s s' : σ}
    (h : Combinator.trials (Node.check bound) value ⟨.ofContext context, place.inner⟩ alternatives
      s = (.ok logs, s')) :
    ∀ node ∈ alternatives, (⟨node, place.inner⟩ : Place).EndsBy context bound value := by
  induction alternatives generalizing logs s s' with
  | nil => simp
  | cons node rest ih =>
    obtain ⟨log, s₁, hfirst, h⟩ := Run.bind_eq_ok h
    obtain ⟨logs, s₂, hrest, _⟩ := Run.bind_eq_ok h
    intro other mem
    rcases List.mem_cons.mp mem with rfl | mem
    · refine ⟨log, ?_⟩
      rw [validate_state _ bound value () s]
      exact congrArg Prod.fst hfirst
    · exact ih hrest other mem

theorem explored (h : place.EndsBy context (bound + 1) value) {seen : Json}
    (present : place.node.present value = .ok seen) : place.Explored context bound seen := by
  obtain ⟨log, hlog⟩ := h
  rcases hc : place.node.check (bound + 1) value (place.scope (.ofContext context)) ({}, ()) with
    ⟨fault | u, log', s'⟩
  · rw [validate, Check.trial_apply hc] at hlog
    cases hlog
  rw [Node.check, Node.checkWith, present, place.enter_scope] at hc
  obtain ⟨_, ⟨log₁, s₁⟩, _, hkind⟩ := Run.bind_eq_ok hc
  constructor
  · intro rules kind fields same
    subst same
    rw [kind] at hkind
    obtain ⟨_, ⟨log₂, s₂⟩, _, h⟩ := Run.bind_eq_ok hkind
    obtain ⟨_, ⟨log₃, s₃⟩, _, h⟩ := Run.bind_eq_ok h
    obtain ⟨_, ⟨log₄, s₄⟩, h, _⟩ := Run.bind_eq_ok h
    exact offers_of_checkIncludes h
  · intro combinator alternatives blankAsNull kind
    rw [kind] at hkind
    obtain ⟨logs, ⟨log₂, s₂⟩, h, _⟩ := Run.bind_eq_ok hkind
    rcases htrials : Combinator.trials (Node.check bound) seen ⟨.ofContext context, place.inner⟩
      alternatives s₁ with ⟨r, s₃⟩
    rw [Check.ofRun_apply log₁ htrials] at h
    cases h
    exact endsBy_of_trials htrials

end Place

end SchemaCast
