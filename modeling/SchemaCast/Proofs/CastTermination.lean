import SchemaCast.Proofs.Renewal.Hash
import SchemaCast.Proofs.Termination

/-!
# Casts come to an end

A cast hands on more than the parts of its value: every alternative of an `allOf` after the first is
applied to what the one before has made of the value. Without defaults, though, no cast makes a
value higher, so that what an alternative is applied to is never higher than the value itself. A
cast therefore ends for the same reason as a check, and the two facts are proved together.
-/
namespace SchemaCast

variable {σ : Type} {context : Context} {place : Place}

/-- A run that is not cut off and comes to a value that is no higher than a bound. -/
def Run.EndsWithin (x : Run σ Json) (bound : Nat) : Prop :=
  x.Holds (fun _ => True) (fun fault => fault ≠ .exhausted) fun output => output.height ≤ bound

namespace Json

theorem heightFields_insert_le (fields : Entries Json) (key : String) (value : Json) :
    heightFields (fields.insert key value) ≤ max (heightFields fields) value.height := by
  induction fields with
  | nil => simp [Entries.insert, heightFields]
  | cons entry rest ih =>
    obtain ⟨name, old⟩ := entry
    unfold Entries.insert
    split
    · simp only [heightFields]
      omega
    · simp only [heightFields]
      omega

theorem heightFields_insertNew_le (fields : Entries Json) (key : String) (value : Json) :
    heightFields (fields.insertNew key value) ≤ max (heightFields fields) value.height := by
  by_cases known : fields.contains key
  · rw [Entries.insertNew, if_pos known]
    exact Nat.le_max_left ..
  · rw [Entries.insertNew_eq_insert known]
    exact heightFields_insert_le ..

theorem height_valueAt_le (fields : Entries Json) (key : String) :
    (fields.valueAt key).height ≤ heightFields fields := by
  unfold Entries.valueAt
  cases found : fields.get? key with
  | none => exact Nat.zero_le _
  | some value => exact height_le_heightFields (Entries.mem_of_get? found)

end Json

/-- A cast at a place casts a value at another place: a part of the value, or what has become of
the value so far. -/
inductive Place.Applies (context : Context) (place : Place) (seen : Json) : Place → Json → Prop where
  | whole {target : Place} {value : Json} (idle : place.Idles context target)
      (fits : value.height ≤ seen.height) : Applies context place seen target value
  | part {target : Place} {value : Json} (step : place.Step context target)
      (below : value.Below seen) : Applies context place seen target value

theorem Place.Applies.step {seen value : Json} {target : Place}
    (h : place.Applies context seen target value) : place.Step context target := by
  cases h with
  | whole idle => exact idle.step
  | part step => exact step

section Traversal

variable {checkNode : NodeCheck σ} {castNode : NodeCast σ}

/-! ### Hashes -/

namespace HashRules

variable {fields : Entries Json}

/-- A run that is not cut off and comes to fields that are no higher than some others. -/
abbrev LowFields (fields : Entries Json) (x : Run σ (Entries Json)) : Prop :=
  x.Holds (fun _ => True) (fun fault => fault ≠ .exhausted) fun output =>
    Json.heightFields output ≤ Json.heightFields fields

theorem castProperties_low {scope : Scope σ} (properties : List (String × Node))
    (output : Entries Json) (low : Json.heightFields output ≤ Json.heightFields fields)
    (each : ∀ entry ∈ properties, (castNode entry.2 (fields.valueAt entry.1) scope).EndsWithin
      (fields.valueAt entry.1).height) :
    LowFields fields (castProperties castNode fields scope output properties) := by
  induction properties generalizing output with
  | nil => exact .pure low
  | cons entry rest ih =>
    have first : LowFields fields (castProperty castNode fields scope output entry) := by
      refine .bind (each entry (by simp)) fun result hresult => ?_
      have value := Json.height_valueAt_le fields entry.1
      split
      · have := Json.heightFields_insert_le output (entry.2.options.outputName.getD entry.1) result
        exact .pure (by omega)
      · exact .pure low
    exact .bind first fun next hnext =>
      ih next hnext fun other hother => each other (by simp [hother])

section Casts

variable (casts : ∀ target value, place.Applies context (.obj fields) target value →
  (castNode target.node value (target.scope (.ofContext context))).EndsWithin value.height)

include casts in
theorem castIncludes_low {rules : HashRules} (kind : place.node.kind = .hash rules)
    (names taken : List String) (output : Entries Json)
    (low : Json.heightFields output ≤ Json.heightFields fields)
    (listed : ∀ name ∈ names, name ∈ rules.includes) :
    (castIncludes castNode rules fields ⟨.ofContext context, place.inner⟩ taken output names).Holds
      (fun _ => True) (fun fault => fault ≠ .exhausted) fun found =>
        Json.heightFields found.1 ≤ Json.heightFields fields := by
  induction names generalizing taken output with
  | nil => exact .pure low
  | cons name rest ih =>
    have serves : (Place.uncut σ).Serves context (.ofContext context) (.ofContext context) place :=
      serves_keeps fun _ _ h => by cases h
    refine .bind ((Place.uncut σ).run_includedBy serves kind (listed name (by simp)) taken) ?_
    rintro ⟨properties, _⟩ ⟨⟨_, _⟩, rfl, target, rfl, _, steps⟩
    refine .bind (castProperties_low properties output low fun entry mem => ?_) fun next hnext => ?_
    · exact casts _ _ (.part (steps entry mem) (Json.below_of_get? fields entry.1))
    · exact ih _ next hnext fun other hother => listed other (by simp [hother])

include casts in
theorem castExtra_low {rules : HashRules} (kind : place.node.kind = .hash rules)
    (output : Entries Json) (low : Json.heightFields output ≤ Json.heightFields fields)
    {field : String × Json} (mem : field ∈ fields) :
    LowFields fields (castExtra castNode rules ⟨.ofContext context, place.inner⟩ output field) := by
  have value := Json.height_le_heightFields mem
  have written (result : Json) (hresult : result.height ≤ field.2.height) :
      Json.heightFields (output.insertNew field.1 result) ≤ Json.heightFields fields := by
    have := Json.heightFields_insertNew_le output field.1 result
    omega
  have inner {node : Node} (owned : node ∈ place.node.children) :
      LowFields fields (castNode node field.2 ⟨.ofContext context, place.inner⟩ >>= fun result =>
        pure (output.insertNew field.1 result)) :=
    .bind (casts _ _ (.part (.child owned) (.field mem))) fun result hresult =>
      .pure (written result hresult)
  unfold castExtra
  cases found : rules.patternFor? field.1 with
  | some node => exact inner (place.node.mem_children_of_patternFor? kind found)
  | none =>
    cases policy : rules.additional with
    | allow => exact .pure (written field.2 (Nat.le_refl _))
    | schema node => exact inner (place.node.mem_children_of_additional kind policy)
    | reject => exact .pure low

include casts in
theorem castExtras_low {rules : HashRules} (kind : place.node.kind = .hash rules)
    (extras output : Entries Json) (low : Json.heightFields output ≤ Json.heightFields fields)
    (part : ∀ field ∈ extras, field ∈ fields) :
    LowFields fields
      (castExtras castNode rules ⟨.ofContext context, place.inner⟩ output extras) := by
  induction extras generalizing output with
  | nil => exact .pure low
  | cons field rest ih =>
    exact .bind (castExtra_low casts kind output low (part field (by simp))) fun next hnext =>
      ih next hnext fun other hother => part other (by simp [hother])

include casts in
theorem cast_low {rules : HashRules} (kind : place.node.kind = .hash rules) :
    (rules.cast castNode fields ⟨.ofContext context, place.inner⟩).EndsWithin
      (Json.obj fields).height := by
  have none : Json.heightFields ([] : Entries Json) ≤ Json.heightFields fields := Nat.zero_le _
  have declared (entry : String × Node) (mem : entry ∈ rules.properties) :=
    casts _ _ (.part (.child (place.node.mem_children_of_property kind mem))
      (Json.below_of_get? fields entry.1))
  refine .bind (castProperties_low rules.properties [] none declared) fun output low => ?_
  refine .bind (castIncludes_low casts kind _ [] output low fun _ mem => mem) fun found low => ?_
  obtain ⟨output, taken⟩ := found
  refine .bind (castExtras_low casts kind _ output low fun field mem => ?_) fun last low => ?_
  · exact (List.mem_filter.mp mem).1
  · exact .pure (Nat.succ_le_succ low)

end Casts

end HashRules

section Whole

variable {seen : Json}
  (casts : ∀ target value, place.Applies context seen target value →
    (castNode target.node value (target.scope (.ofContext context))).EndsWithin value.height)
  (tried : ∀ target value, place.Asks context seen target value →
    (Check.trial (checkNode target.node value (target.scope (.ofContext context)))).Holds
      (fun _ => True) (fun fault => fault ≠ .exhausted) fun _ => True)

/-! ### Arrays -/

namespace ArrayRules

variable {rules : ArrayRules}

include casts tried in
theorem castItem_low (kind : place.node.kind = .array rules) (index : Nat) {item : Json}
    (below : item.Below seen) :
    (rules.castItem checkNode castNode ⟨.ofContext context, place.inner⟩ index item).EndsWithin
      item.height := by
  have byPlace : (rules.castByPlace castNode ⟨.ofContext context, place.inner⟩ index
      item).EndsWithin item.height := by
    unfold castByPlace
    cases found : rules.schemaAt? index with
    | some node =>
      have owned := place.node.mem_children_of_schemaAt? kind found
      exact casts _ _ (.part (.child owned) below)
    | none => exact .pure (Nat.le_refl _)
  unfold castItem
  cases found : rules.contains with
  | none => exact byPlace
  | some node =>
    have owned := place.node.mem_children_of_contains kind found
    refine .bind (tried _ _ (.part (.child owned) below)) fun log _ => ?_
    split
    · exact casts _ _ (.part (.child owned) below)
    · exact byPlace

include casts tried in
theorem castItems_low (kind : place.node.kind = .array rules) (given : ¬ seen.isNull) (index : Nat)
    (items : List Json) (below : ∀ item ∈ items, item.Below seen) :
    (rules.castItems checkNode castNode ⟨.ofContext context, place.inner⟩ index items).Holds
      (fun _ => True) (fun fault => fault ≠ .exhausted) fun results =>
        Json.heightItems results < seen.height := by
  induction items generalizing index with
  | nil => exact .pure (Json.height_pos given)
  | cons item rest ih =>
    have first := below item (by simp)
    refine .bind (castItem_low casts tried kind index first) fun result hresult => ?_
    refine .bind (ih (index + 1) fun other hother => below other (by simp [hother]))
      fun results hresults => .pure ?_
    have := first.height_lt given
    exact Nat.max_lt.mpr ⟨by omega, hresults⟩

include casts tried in
theorem cast_low (kind : place.node.kind = .array rules) (given : ¬ seen.isNull) :
    (rules.cast checkNode castNode seen ⟨.ofContext context, place.inner⟩).EndsWithin
      seen.height := by
  unfold cast
  cases read : rules.elements seen with
  | error violation => exact .pure (Nat.le_refl _)
  | ok elements =>
    refine .bind (castItems_low casts tried kind given 0 _ fun item mem => ?_)
      fun results low => .pure low
    exact below_of_elements read (List.mem_filter.mp mem).1

end ArrayRules

/-! ### Combinations -/

namespace Combinator

/-- What the alternatives have made of a value stays as low as the value. -/
theorem castAll_low (output : Json) (low : output.height ≤ seen.height) (alternatives : List Node)
    (tried : ∀ node ∈ alternatives,
      (Check.trial (checkNode node seen ⟨.ofContext context, place.inner⟩)).Holds (fun _ => True)
        (fun fault => fault ≠ .exhausted) fun _ => True)
    (casts : ∀ node ∈ alternatives, ∀ value, value.height ≤ seen.height →
      (castNode node value ⟨.ofContext context, place.inner⟩).EndsWithin value.height) :
    (castAll checkNode castNode seen ⟨.ofContext context, place.inner⟩ output
      alternatives).EndsWithin seen.height := by
  induction alternatives generalizing output with
  | nil => exact .pure low
  | cons node rest ih =>
    have others (output : Json) (low : output.height ≤ seen.height) :=
      ih output low (fun other hother => tried other (by simp [hother]))
        fun other hother => casts other (by simp [hother])
    refine .bind (tried node (by simp)) fun log _ => ?_
    split
    · exact .bind (casts node (by simp) output low) fun next hnext =>
        others next (Nat.le_trans hnext low)
    · exact others output low

theorem castFirst_low (alternatives : List Node)
    (tried : ∀ node ∈ alternatives,
      (Check.trial (checkNode node seen ⟨.ofContext context, place.inner⟩)).Holds (fun _ => True)
        (fun fault => fault ≠ .exhausted) fun _ => True)
    (casts : ∀ node ∈ alternatives,
      (castNode node seen ⟨.ofContext context, place.inner⟩).EndsWithin seen.height) :
    (castFirst checkNode castNode seen ⟨.ofContext context, place.inner⟩ alternatives).EndsWithin
      seen.height := by
  induction alternatives with
  | nil => exact .pure (Nat.le_refl _)
  | cons node rest ih =>
    refine .bind (tried node (by simp)) fun log _ => ?_
    split
    · exact casts node (by simp)
    · exact ih (fun other hother => tried other (by simp [hother]))
        fun other hother => casts other (by simp [hother])

include casts tried in
theorem cast_low {combinator : Combinator} {alternatives : List Node} {blankAsNull : Bool}
    (kind : place.node.kind = .combination combinator alternatives blankAsNull) :
    (combinator.cast checkNode castNode alternatives seen
      ⟨.ofContext context, place.inner⟩).EndsWithin seen.height := by
  have idle (node : Node) (mem : node ∈ alternatives) :
      place.Idles context ⟨node, place.inner⟩ := .alternative kind mem
  have tried (node : Node) (mem : node ∈ alternatives) := tried _ _ (.whole (idle node mem))
  have first := castFirst_low alternatives tried fun node mem =>
    casts _ _ (.whole (idle node mem) (Nat.le_refl _))
  cases combinator with
  | allOf =>
    exact castAll_low seen (Nat.le_refl _) alternatives tried fun node mem value fits =>
      casts _ _ (.whole (idle node mem) fits)
  | anyOf => exact first
  | oneOf => exact first
  | not => exact .pure (Nat.le_refl _)

end Combinator

/-! ### Nodes -/

namespace Place

include casts tried in
theorem castKind_low (given : ¬ seen.isNull) :
    (place.node.kind.cast checkNode castNode seen ⟨.ofContext context, place.inner⟩).EndsWithin
      seen.height := by
  cases kind : place.node.kind with
  | string rules => exact .pure (rules.height_cast_le seen)
  | integer rules => exact .pure (rules.height_cast_le true seen)
  | number rules => exact .pure (rules.height_cast_le false seen)
  | boolean castText => exact .pure (Truth.height_cast_le castText seen)
  | symbol => exact .pure (Nat.le_refl _)
  | object classes => exact .pure (Nat.le_refl _)
  | hash rules =>
    cases seen with
    | obj fields => exact HashRules.cast_low casts kind
    | _ => exact .pure (Nat.le_refl _)
  | array rules => exact ArrayRules.cast_low casts tried kind given
  | combination combinator alternatives blankAsNull =>
    exact Combinator.cast_low casts tried kind
  | reference name =>
    have serves : (uncut σ).Serves context (.ofContext context) (.ofContext context) place :=
      serves_keeps fun _ _ h => by cases h
    refine .bind (serves.target name (by simp [Kind.referenced, kind])) ?_
    rintro _ ⟨_, target, leads, rfl, _⟩
    exact casts _ _ (.whole (.reference kind leads) (Nat.le_refl _))

/-- Without a default, a missing value stays missing, and any other one is cast by the kind. -/
theorem castWith_low {value : Json} (undefaulted : place.node.default? = none)
    (casts : ∀ target part, ¬ value.isNull → place.Applies context value target part →
      (castNode target.node part (target.scope (.ofContext context))).EndsWithin part.height)
    (tried : ∀ target part, ¬ value.isNull → place.Asks context value target part →
      (Check.trial (checkNode target.node part (target.scope (.ofContext context)))).Holds
        (fun _ => True) (fun fault => fault ≠ .exhausted) fun _ => True) :
    (place.node.castWith checkNode castNode value (place.scope (.ofContext context))).EndsWithin
      value.height := by
  unfold Node.castWith
  rw [undefaulted, place.enter_scope]
  by_cases missing : (place.node.seen value).isNull
  · simp only [missing, if_true]
    exact .pure (Nat.zero_le _)
  · have same : place.node.seen value = value := by
      rcases place.node.seen_cases value with null | same
      · rw [null] at missing
        exact absurd rfl missing
      · exact same
    rw [same] at missing ⊢
    simp only [missing]
    exact castKind_low (fun target part => casts target part missing)
      (fun target part => tried target part missing) missing

end Place

end Whole

end Traversal

namespace Place

variable {root : Node} {value : Json} {limit : Nat}

/-- What is left to do when a cast goes on at another place. -/
theorem effort_lt_of_applies (consumes : root.place.Consumes context)
    (hlimit : ∀ place, root.place.Reaches context place → (place.ahead context).ncard ≤ limit)
    (reached : root.place.Reaches context place) {seen : Json} {target : Place}
    (given : ¬ seen.isNull) (applies : place.Applies context seen target value) :
    target.effort context limit value < place.effort context limit seen := by
  cases applies with
  | whole idle fits => exact effort_lt_of_idles consumes reached idle fits
  | part step below => exact effort_lt_of_part hlimit reached step below given

section Undefaulted

variable (undefaulted : ∀ place, root.place.Reaches context place → place.node.default? = none)
  (guarded : ∀ place, root.place.Reaches context place →
    ¬ Relation.TransGen (Idles context) place place)
  (hlimit : ∀ place, root.place.Reaches context place → (place.ahead context).ncard ≤ limit)

include undefaulted guarded in
theorem consumes_of_undefaulted : root.place.Consumes context where
  idle := guarded
  default place reached some := by
    rw [undefaulted place reached] at some
    cases some

include undefaulted guarded hlimit in
/-- A check ends within a bound if there is less to do. -/
theorem check_ends_of_undefaulted {fuel : Nat} (reached : root.place.Reaches context place)
    (enough : place.effort context limit value < fuel) :
    (uncut σ).check (fun _ _ => True)
      (place.node.check fuel value (place.scope (.ofContext context)))
      (place.node.check fuel value (place.scope (.ofContext context))) := by
  have none : place.defaultsAhead context = ∅ := by
    refine Set.eq_empty_of_forall_notMem fun target h => ?_
    have some := h.2
    rw [undefaulted target (reached.trans h.1)] at some
    cases some
  have low (place : Place) (reached : root.place.Reaches context place) :
      ∀ default ∈ place.node.default?, default.height ≤ value.height := by
    rw [undefaulted place reached]
    simp
  refine check_ends (consumes_of_undefaulted undefaulted guarded) hlimit low reached
    (Nat.le_refl _) ?_
  rw [none, Set.ncard_empty]
  omega

include undefaulted guarded hlimit in
/-- A cast ends within a bound if there is less to do, and its result is no higher than the
value. -/
theorem cast_ends_of_undefaulted {fuel : Nat} (reached : root.place.Reaches context place)
    (enough : place.effort context limit value < fuel) :
    (place.cast fuel (.ofContext context : Resolver σ) value).EndsWithin value.height := by
  have consumes := consumes_of_undefaulted undefaulted guarded
  induction fuel generalizing place value with
  | zero => omega
  | succ fuel ih =>
    refine castWith_low (undefaulted place reached) (fun target part given applies => ?_)
      fun target part given asks => ?_
    · have less := effort_lt_of_applies consumes hlimit reached given applies
      exact ih (reached.tail applies.step) (by omega)
    · have less := effort_lt_of_asks consumes hlimit reached given asks
      have enough : target.effort context limit part < fuel := by omega
      have ends := check_ends_of_undefaulted (σ := σ) undefaulted guarded hlimit
        (reached.tail asks.step) enough
      exact ((uncut σ).run_trial ends).imp fun _ _ => trivial

end Undefaulted

end Place

end SchemaCast
