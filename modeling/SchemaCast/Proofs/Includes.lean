import SchemaCast.Proofs.Validity

/-!
# Included hashes

A hash that only includes another one is checked as if it declared the properties of that one, and
none of those that it includes in turn. `include_accepts_iff` says so, and for which values that
makes no difference to the hash that is included.
-/
namespace SchemaCast

variable {σ : Type} {context : Context} {properties : List (String × Node)}
  {includes : List String}

/-- A hash that has properties and includes, and no options. -/
def Node.plainHash (properties : List (String × Node)) (includes : List String) : Node :=
  ⟨{}, .hash { properties, includes }⟩

namespace HashRules

variable {checkNode : NodeCheck σ} {fields : Entries Json}

/-- Without rules for further fields, these are obsolete. -/
theorem validate_plain (scope : Scope σ) :
    validate checkNode { properties, includes } fields scope = (do
      Check.recordAll (sizeViolations {} fields)
      properties.forM (checkProperty checkNode fields scope)
      let taken ← checkIncludes checkNode { properties, includes } fields scope [] includes
      (extras { properties } taken fields).forM fun field =>
        Check.record (.obsoleteProperty field.1)) := by
  have done : (fun _ : Unit => (Check.recordAll [] : Check σ Unit) >>= fun _ => Check.recordAll []) =
      pure := rfl
  change (do
      Check.recordAll (sizeViolations {} fields)
      properties.forM (checkProperty checkNode fields scope)
      let taken ← checkIncludes checkNode { properties, includes } fields scope [] includes
      ((extras { properties } taken fields).forM fun field =>
        Check.record (.obsoleteProperty field.1)) >>= fun _ =>
          (Check.recordAll [] : Check σ Unit) >>= fun _ => Check.recordAll []) = _
  simp only [done, bind_pure]

/-- The only include of a hash with nothing else stands for the properties of the included one. -/
theorem validate_include {name : String}
    (registered : context.get? name = some (.plainHash properties includes)) :
    validate checkNode { includes := [name] } fields ⟨.ofContext context, []⟩ =
      validate checkNode { properties } fields ⟨.ofContext context, []⟩ := by
  have leads : context.place? [] name = some (Node.plainHash properties includes).place := by
    simp [Context.place?, lookupLocal, registered, Node.place]
  have offers : Offers context (Node.plainHash [] [name]).place name
      (Node.plainHash properties includes).place properties := ⟨leads, _, rfl, rfl⟩
  have included : includedBy { includes := [name] } ⟨.ofContext context, []⟩ [] name =
      (pure (properties, ⟨.ofContext context, []⟩) : Run σ _) := by
    have all : (properties.filter fun entry =>
        !declares { includes := [name] } entry.1 && !([] : List String).contains entry.1) =
        properties :=
      List.filter_eq_self.mpr fun entry _ => rfl
    refine (includedBy_of_offers offers []).trans ?_
    rw [all]
    rfl
  have checked : checkIncludes checkNode { includes := [name] } fields ⟨.ofContext context, []⟩ []
        [name] = (do
      properties.forM (checkProperty checkNode fields ⟨.ofContext context, []⟩)
      pure (properties.map Prod.fst)) := by
    rw [checkIncludes, included]
    rfl
  have taken : extras {} (properties.map Prod.fst) fields = extras { properties } [] fields := by
    refine List.filter_congr fun field _ => ?_
    have same : (properties.map Prod.fst).contains field.1 = Entries.contains properties field.1 := by
      rw [Bool.eq_iff_iff, Entries.contains_iff, List.contains_iff_mem]
      rfl
    have undeclared : declares {} field.1 = false := rfl
    have none : ([] : List String).contains field.1 = false := rfl
    rw [undeclared, none, same]
    exact Bool.and_comm _ _
  rw [validate_plain, validate_plain, checked]
  refine bind_congr fun _ => ?_
  change (do
      (do
        properties.forM (checkProperty checkNode fields ⟨.ofContext context, []⟩)
        pure (properties.map Prod.fst)) >>= fun taken =>
          (extras {} taken fields).forM fun field => Check.record (.obsoleteProperty field.1)) = _
  rw [bind_assoc]
  simp only [pure_bind, taken]
  rfl

/-- Without the includes nothing is checked but the properties, and messages are recorded. -/
theorem validate_plain_ends {scope : Scope σ} {log log' : ErrorLog} {s s' : σ}
    (ended : validate checkNode { properties, includes } fields scope (log, s) =
      (.ok (), log', s')) :
    ∃ other, validate checkNode { properties } fields scope (log, s) = (.ok (), other) := by
  rw [validate_plain] at ended ⊢
  obtain ⟨_, _, size, rest⟩ := Run.bind_eq_ok ended
  obtain ⟨_, ⟨before, t⟩, declared, _⟩ := Run.bind_eq_ok rest
  rw [Run.bind_ok size, Run.bind_ok declared]
  exact ⟨_, Check.forM_record _ _ before t⟩

end HashRules

namespace Place

variable {name : String} {fuel : Nat} {value : Json} {s : σ} {log : ErrorLog}

/-- A hash without options checks the fields of an object, and of other values but their type. -/
theorem validate_plainHash (fuel : Nat) (value : Json) :
    (Node.plainHash properties includes).place.validate (fuel + 1) (.ofContext context) value =
      Check.trial (σ := σ) (match value with
        | .null => pure ()
        | .obj fields => HashRules.validate (Node.check fuel) { properties, includes } fields
          ⟨.ofContext context, []⟩
        | _ => Check.record (.wrongType "object")) := by
  cases value <;> rfl

/-- A hash that includes another one is validated as if it declared the properties of that one. -/
theorem validate_plainHash_include
    (registered : context.get? name = some (.plainHash properties includes)) (fuel : Nat)
    (value : Json) (s : σ) :
    (Node.plainHash [] [name]).place.validate fuel (.ofContext context) value s =
      (Node.plainHash properties []).place.validate fuel (.ofContext context) value s := by
  cases fuel with
  | zero => rfl
  | succ fuel =>
    rw [validate_plainHash, validate_plainHash]
    cases value with
    | obj fields =>
      dsimp only
      rw [HashRules.validate_include registered]
    | _ => rfl

/-- For a value that is no object the includes make no difference. -/
theorem validate_plainHash_other (other : ∀ fields, value ≠ .obj fields) :
    (Node.plainHash properties []).place.validate fuel (.ofContext context) value s =
      (Node.plainHash properties includes).place.validate fuel (.ofContext context) value s := by
  cases fuel with
  | zero => rfl
  | succ fuel =>
    rw [validate_plainHash, validate_plainHash]
    cases value with
    | obj fields => exact absurd rfl (other fields)
    | _ => rfl

/-- Without its includes the validation of a hash comes to a result wherever it did with them. -/
theorem validate_plainHash_ends
    (ended : ((Node.plainHash properties includes).place.validate fuel (.ofContext context)
      value s).1 = .ok log) :
    ∃ log, ((Node.plainHash properties []).place.validate fuel (.ofContext context)
      value s).1 = .ok log := by
  cases fuel with
  | zero => cases ended
  | succ fuel =>
    rw [validate_plainHash] at ended ⊢
    cases value with
    | obj fields =>
      have run := Check.trial_eq_ok.mp (Prod.ext ended rfl)
      obtain ⟨⟨other, t⟩, run⟩ := HashRules.validate_plain_ends run
      exact ⟨other, congrArg Prod.fst (Check.trial_eq_ok.mpr run)⟩
    | _ => exact ⟨log, ended⟩

/-- The validation of an object tells whether its fields follow the rules. -/
theorem isEmpty_plainHash {fields : Entries Json}
    (ended : ((Node.plainHash properties includes).place.validate fuel (.ofContext context)
      (.obj fields) s).1 = .ok log) :
    log.isEmpty ↔ HashRules.Meets context (Satisfies context)
      (Node.plainHash properties includes).place { properties, includes } fields := by
  have decided := validate_decides (Node.plainHash properties includes).place fuel (.obj fields) s
    (by rw [ended]; intro h; cases h)
  obtain ⟨log', came, empty, met⟩ | ⟨error, _, broken⟩ := decided
  · rw [ended] at came
    cases came
    rw [empty, met]
    constructor
    · intro h
      exact (show MeetsPresent _ _ _ _ from h).kind fields rfl
    · intro h
      refine (show MeetsPresent _ _ _ _ from ⟨rfl, fun values mem => ?_, fun other same => ?_⟩)
      · cases mem
      · cases same
        exact h
  · rw [ended] at broken
    cases broken

variable {fields : Entries Json} {Sat : Place → Json → Prop}

/-- The rules of a hash with properties and includes alone. -/
theorem meets_plain_iff : HashRules.Meets context Sat (Node.plainHash properties includes).place
      { properties, includes } fields ↔
    (fields.keys.Pairwise fun key other => foldKey key ≠ foldKey other) ∧
      (∀ entry ∈ properties, HashRules.MeetsProperty Sat fields entry []) ∧
      (∀ entry target, HashRules.Includes context (Node.plainHash properties includes).place
        { properties, includes } entry target →
          HashRules.MeetsProperty Sat fields entry target.inner) ∧
      ∀ field ∈ fields, ¬ HashRules.Extra context (Node.plainHash properties includes).place
        { properties, includes } field.1 := by
  constructor
  · intro h
    refine ⟨h.distinct, h.declared, h.included, fun field mem extra => ?_⟩
    exact absurd (h.extra field mem extra) Bool.false_ne_true
  · intro h
    obtain ⟨distinct, declared, included, none⟩ := h
    exact {
      distinct, declared, included
      minProperties := fun least mem => by cases mem
      maxProperties := fun most mem => by cases mem
      extra := fun field mem extra => absurd extra (none field mem)
      names := fun field mem extra => absurd extra (none field mem)
      dependencies := fun entry mem => by cases mem }

/-- Without includes all fields have to be declared. -/
theorem meets_declared_iff :
    HashRules.Meets context Sat (Node.plainHash properties []).place { properties } fields ↔
      (fields.keys.Pairwise fun key other => foldKey key ≠ foldKey other) ∧
        (∀ entry ∈ properties, HashRules.MeetsProperty Sat fields entry []) ∧
        ∀ field ∈ fields, Entries.contains properties field.1 := by
  have included (entry : String × Node) (target : Place) :
      ¬ HashRules.Includes context (Node.plainHash properties []).place { properties }
        entry target := by
    intro h
    obtain ⟨earlier, name, later, _, none, _⟩ := h
    simp at none
  have offered (key : String) :
      ¬ HashRules.Offered context (Node.plainHash properties []).place [] key := by
    intro h
    obtain ⟨name, mem, _⟩ := h
    cases mem
  rw [meets_plain_iff]
  simp [included, HashRules.Extra, offered, HashRules.declares]

/-- Where all fields are declared, none is included. -/
theorem not_contains_of_includes {place target : Place} {entry : String × Node}
    (all : ∀ field ∈ fields, Entries.contains properties field.1)
    (h : HashRules.Includes context place { properties, includes } entry target) :
    ¬ Entries.contains fields entry.1 := by
  obtain ⟨_, _, _, _, _, _, _, undeclared, _⟩ := h
  intro given
  obtain ⟨field, mem, key⟩ := List.mem_map.mp (Entries.contains_iff.mp given)
  apply undeclared
  rw [← key]
  exact all field mem

/-- A missing field is as a property asks if its key need not be there and the property accepts that
there is no value. -/
theorem meetsProperty_missing {entry : String × Node} {around : List Definitions}
    (absent : ¬ fields.contains entry.1) :
    HashRules.MeetsProperty Sat fields entry around ↔
      ¬ entry.2.options.requireKey ∧ Sat ⟨entry.2, around⟩ .null := by
  have none : fields.get? entry.1 = none := by simpa [Entries.contains] using absent
  constructor
  · intro h
    refine ⟨fun required => absent (h.key required), ?_⟩
    have value := h.value
    rwa [none] at value
  · intro h
    refine ⟨fun required => absurd required h.1, ?_⟩
    rw [none]
    exact h.2

end Place

/-- A hash that only includes another one is validated as if it declared the properties of that one,
and not what that one includes in turn. So it comes to a result wherever the included hash does,
and they agree about a value unless it has a key that the included hash takes from its own includes,
or lacks a property of these that must be there. -/
theorem include_accepts_iff {name : String}
    (registered : context.get? name = some (.plainHash properties includes)) (fuel : Nat)
    (value : Json) (s : σ) :
    let whole := (Node.plainHash properties includes).place
    let including := (Node.plainHash [] [name]).place
    including.validate fuel (.ofContext context) value s =
        (Node.plainHash properties []).place.validate fuel (.ofContext context) value s ∧
      ∀ log, (whole.validate fuel (.ofContext context) value s).1 = .ok log →
        ∃ log', (including.validate fuel (.ofContext context) value s).1 = .ok log' ∧
          ((log'.isEmpty ↔ log.isEmpty) ↔
            (log.isEmpty → ∀ fields, value = .obj fields →
              ∀ field ∈ fields, Entries.contains properties field.1) ∧
            (log'.isEmpty → ∀ fields, value = .obj fields →
              ∀ entry target, HashRules.Includes context whole { properties, includes } entry target →
                ¬ entry.2.options.requireKey ∧
                  Place.Satisfies context ⟨entry.2, target.inner⟩ .null)) := by
  intro whole including
  have same := Place.validate_plainHash_include registered fuel value s
  refine ⟨same, fun log ended => ?_⟩
  obtain ⟨log', ended'⟩ := Place.validate_plainHash_ends ended
  refine ⟨log', (congrArg Prod.fst same).trans ended', ?_⟩
  by_cases object : ∃ fields, value = .obj fields
  · obtain ⟨fields, rfl⟩ := object
    rw [Place.isEmpty_plainHash ended', Place.isEmpty_plainHash ended, Place.meets_declared_iff,
      Place.meets_plain_iff]
    constructor
    · intro agree
      constructor
      · rintro accepted _ ⟨⟩
        exact (agree.mpr accepted).2.2
      · rintro accepted _ ⟨⟩ entry target includes
        have absent := Place.not_contains_of_includes accepted.2.2 includes
        exact (Place.meetsProperty_missing absent).mp
          ((agree.mp accepted).2.2.1 entry target includes)
    · intro h
      obtain ⟨only, missing⟩ := h
      constructor
      · intro accepted
        obtain ⟨distinct, declared, all⟩ := id accepted
        refine ⟨distinct, declared, fun entry target includes => ?_,
          fun field mem extra => extra.1 (all field mem)⟩
        have absent := Place.not_contains_of_includes all includes
        exact (Place.meetsProperty_missing absent).mpr
          (missing accepted fields rfl entry target includes)
      · intro accepted
        exact ⟨accepted.1, accepted.2.1, only accepted fields rfl⟩
  · have other (fields : Entries Json) : value ≠ .obj fields := fun h => object ⟨fields, h⟩
    rw [Place.validate_plainHash_other other, ended] at ended'
    cases ended'
    simp [other]

/-- The included hash takes over a property that must be there, which nobody asks the including one
for. -/
theorem include_accepts_iff_required :
    let base : Node := .plainHash [("a", ⟨{ required := true }, .integer {}⟩)] []
    let properties : List (String × Node) := [("b", ⟨{}, .symbol⟩)]
    let context : Context := [("base", base), ("record", .plainHash properties ["base"])]
    let value : Json := .obj [("b", .str "x")]
    let whole := (Node.plainHash properties ["base"]).place
    let including := (Node.plainHash [] ["record"]).place
    let log : ErrorLog := ⟨.root, [(⟨[.key "a"]⟩, ["Value must be given."])]⟩
    context.get? "record" = some (.plainHash properties ["base"]) ∧
      (whole.validate 2 (.ofContext context : Resolver Unit) value ()).1 = .ok log ∧
      (including.validate 2 (.ofContext context : Resolver Unit) value ()).1 = .ok {} ∧
      ¬ ∀ entry target, HashRules.Includes context whole { properties, includes := ["base"] }
        entry target → ¬ entry.2.options.requireKey ∧
          Place.Satisfies context ⟨entry.2, target.inner⟩ .null := by
  intro base properties context value whole including log
  have registered : context.get? "record" = some (.plainHash properties ["base"]) := rfl
  have ended : (whole.validate 2 (.ofContext context : Resolver Unit) value ()).1 = .ok log := rfl
  have accepted : (including.validate 2 (.ofContext context : Resolver Unit) value ()).1 = .ok {} :=
    rfl
  obtain ⟨log', came, agree⟩ := (include_accepts_iff registered 2 value ()).2 log ended
  cases accepted.symm.trans came
  refine ⟨registered, ended, accepted, fun missing => ?_⟩
  have same := agree.mpr ⟨fun empty => (by cases empty), fun _ _ _ => missing⟩
  exact absurd (same.mp rfl) (by decide)

/-- A key that an included hash takes from its own include is obsolete for the hash that includes
it. -/
theorem include_refuses_nested :
    let base : Node := .plainHash [("a", ⟨{}, .integer {}⟩)] []
    let context : Context := [("g", base), ("h", .plainHash [] ["g"])]
    let value : Json := .obj [("a", .int 1)]
    let log : ErrorLog := ⟨.root, [(.root, [Violation.message (.obsoleteProperty "a")])]⟩
    ((Node.plainHash [] ["g"]).validate (.ofContext context : Resolver Unit) value ()).1 = .ok {} ∧
      ((Node.plainHash [] ["h"]).validate (.ofContext context : Resolver Unit) value ()).1 =
        .ok log := by
  exact ⟨rfl, rfl⟩

end SchemaCast
