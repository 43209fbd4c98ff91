import SchemaCast.Proofs.Validity

/-!
# What a cast hands down

A cast of a value that meets the rules of a place casts by inner nodes only values that satisfy
them, unless the place combines alternatives by `allOf`: each of these but the first is applied to
the result of the one before. What holds of the casts of inner values, of the trials and of the
look-ups of names therefore holds of the whole cast.
-/
namespace SchemaCast

variable {σ : Type} {context : Context} {Sat : Place → Json → Prop} {place : Place}
  {checkNode : NodeCheck σ} {castNode : NodeCast σ} {Q : σ → Prop} {E : Fault → Prop}

namespace HashRules

theorem holds_castProperties {scope : Scope σ} (fields : Entries Json)
    (properties : List (String × Node)) (output : Entries Json)
    (h : ∀ entry ∈ properties, (castNode entry.2 ((fields.get? entry.1).getD .null) scope).Holds Q E
      fun _ => True) :
    (castProperties castNode fields scope output properties).Holds Q E fun _ => True := by
  induction properties generalizing output with
  | nil => exact .pure trivial
  | cons entry rest ih =>
    have first : (castProperty castNode fields scope output entry).Holds Q E fun _ => True := by
      refine .bind (h entry (by simp)) fun result _ => ?_
      split <;> exact .pure trivial
    exact .bind first fun next _ => ih next fun other hother => h other (by simp [hother])

section Nested

variable (casts : ∀ target, place.Step context target → ∀ value, Sat target value →
  (castNode target.node value (target.scope (.ofContext context))).Holds Q E fun _ => True)

include casts in
theorem holds_castIncludes {rules : HashRules} (kind : place.node.kind = .hash rules)
    (looked : ∀ name ∈ rules.includes, ∀ taken,
      (rules.includedBy ⟨(.ofContext context : Resolver σ), place.inner⟩ taken name).Holds Q E
        fun _ => True)
    (fields output : Entries Json) (earlier names taken : List String)
    (hnames : rules.includes = earlier ++ names)
    (htaken : ∀ key, ¬ rules.declares key → (key ∈ taken ↔ Offered context place earlier key))
    (met : MeetsIncludes context Sat place rules fields earlier names) :
    (castIncludes castNode rules fields ⟨.ofContext context, place.inner⟩ taken output names).Holds
      Q E fun found => ∀ key, ¬ rules.declares key →
        (key ∈ found.2 ↔ Offered context place rules.includes key) := by
  induction names generalizing earlier taken output with
  | nil =>
    rw [List.append_nil] at hnames
    rw [hnames]
    exact .pure htaken
  | cons name rest ih =>
    have listed : name ∈ rules.includes := by rw [hnames]; simp
    refine .bind ((looked name listed taken).and_gives (gives_includedBy rules taken name)) ?_
    rintro ⟨fresh, _⟩ ⟨_, target, properties, offers, rfl, hfresh⟩
    obtain ⟨leads, targetRules, hash, rfl⟩ := id offers
    obtain ⟨first, others⟩ := (meetsIncludes_cons offers).mp met
    -- What is fresh to the cast is what earlier includes have not offered, as `Offered` has it.
    refine .bind (holds_castProperties fields fresh output fun entry mem => ?_) fun next _ => ?_
    · obtain ⟨mem, undeclared, new⟩ := (hfresh entry).mp mem
      rw [htaken entry.1 undeclared] at new
      exact casts _ (.included kind listed leads hash mem) _ (first entry mem undeclared new).value
    · exact ih next (earlier ++ [name]) _ (by simp [hnames])
        (taken_append offers hfresh htaken) others

include casts in
theorem holds_castExtra {rules : HashRules} (kind : place.node.kind = .hash rules)
    (output : Entries Json) (field : String × Json) (met : rules.MeetsExtra Sat place field) :
    (castExtra castNode rules ⟨.ofContext context, place.inner⟩ output field).Holds Q E
      fun _ => True := by
  unfold castExtra
  unfold MeetsExtra at met
  cases found : rules.patternFor? field.1 with
  | some node =>
    simp only [found] at met
    have owned := place.node.mem_children_of_patternFor? kind found
    exact .bind (casts _ (.child owned) _ met) fun _ _ => .pure trivial
  | none =>
    cases policy : rules.additional with
    | allow => exact .pure trivial
    | schema node =>
      simp only [found, policy] at met
      have owned := place.node.mem_children_of_additional kind policy
      exact .bind (casts _ (.child owned) _ met) fun _ _ => .pure trivial
    | reject => exact .pure trivial

include casts in
theorem holds_cast {rules : HashRules} (kind : place.node.kind = .hash rules)
    (looked : ∀ name ∈ rules.includes, ∀ taken,
      (rules.includedBy ⟨(.ofContext context : Resolver σ), place.inner⟩ taken name).Holds Q E
        fun _ => True)
    (fields : Entries Json) (met : rules.Meets context Sat place fields) :
    (rules.cast castNode fields ⟨.ofContext context, place.inner⟩).Holds Q E fun _ => True := by
  refine .bind (holds_castProperties fields rules.properties [] fun entry mem => ?_)
    fun output _ => ?_
  · exact casts _ (.child (place.node.mem_children_of_property kind mem)) _
      (met.declared entry mem).value
  refine .bind (holds_castIncludes casts kind looked fields output [] rules.includes [] rfl
    (by simp [Offered]) (meetsIncludes_iff.mpr met.included)) ?_
  rintro ⟨output, taken⟩ htaken
  have extras (extras : Entries Json) (output : Entries Json)
      (h : ∀ field ∈ extras, rules.MeetsExtra Sat place field) :
      (castExtras castNode rules ⟨.ofContext context, place.inner⟩ output extras).Holds Q E
        fun _ => True := by
    induction extras generalizing output with
    | nil => exact .pure trivial
    | cons field rest ih =>
      exact .bind (holds_castExtra casts kind output field (h field (by simp)))
        fun next _ => ih next fun other hother => h other (by simp [hother])
  refine .bind (extras _ output fun field mem => ?_) fun _ _ => .pure trivial
  obtain ⟨mem, extra⟩ := (mem_extras htaken field).mp mem
  exact met.extra field mem extra

end Nested

end HashRules

namespace ArrayRules

variable (casts : ∀ target, place.Step context target → ∀ value, Sat target value →
  (castNode target.node value (target.scope (.ofContext context))).Holds Q E fun _ => True)

include casts in
theorem holds_castItems {rules : ArrayRules} (kind : place.node.kind = .array rules)
    (searched : ∀ node ∈ rules.contains, ∀ item,
      (Check.trial (checkNode node item ⟨.ofContext context, place.inner⟩)).Holds Q E
        fun log => log.isEmpty →
          (castNode node item ⟨.ofContext context, place.inner⟩).Holds Q E fun _ => True)
    (index : Nat) (items : List Json) (met : rules.MeetsFrom Sat place index items) :
    (rules.castItems checkNode castNode ⟨.ofContext context, place.inner⟩ index items).Holds Q E
      fun _ => True := by
  induction items generalizing index with
  | nil => exact .pure trivial
  | cons item rest ih =>
    obtain ⟨due, others⟩ := meetsFrom_cons.mp met
    have byPlace : (rules.castByPlace castNode ⟨.ofContext context, place.inner⟩ index item).Holds
        Q E fun _ => True := by
      unfold castByPlace
      cases found : rules.schemaAt? index with
      | some node =>
        have owned := place.node.mem_children_of_schemaAt? kind found
        exact casts _ (.child owned) item (due node found)
      | none => exact .pure trivial
    have first : (rules.castItem checkNode castNode ⟨.ofContext context, place.inner⟩ index
        item).Holds Q E fun _ => True := by
      unfold castItem
      cases found : rules.contains with
      | none => exact byPlace
      | some node =>
        refine .bind (searched node found item) fun log hlog => ?_
        split
        · next empty => exact hlog empty
        · exact byPlace
    exact .bind first fun _ _ => .bind (ih (index + 1) others) fun _ _ => .pure trivial

include casts in
theorem holds_cast {rules : ArrayRules} (kind : place.node.kind = .array rules)
    (searched : ∀ node ∈ rules.contains, ∀ item,
      (Check.trial (checkNode node item ⟨.ofContext context, place.inner⟩)).Holds Q E
        fun log => log.isEmpty →
          (castNode node item ⟨.ofContext context, place.inner⟩).Holds Q E fun _ => True)
    (value : Json) (met : rules.Meets Sat place value) :
    (rules.cast checkNode castNode value ⟨.ofContext context, place.inner⟩).Holds Q E
      fun _ => True := by
  obtain ⟨elements, read, met⟩ := met
  simp only [cast, read]
  have from0 := (meetsShape_iff.mp met.shape).2
  exact .bind (holds_castItems casts kind searched 0 _ from0) fun _ _ => .pure trivial

end ArrayRules

namespace Combinator

theorem holds_castFirst (Sat : Place → Json → Prop) (value : Json) (alternatives : List Node)
    (tried : ∀ node ∈ alternatives,
      (Check.trial (checkNode node value ⟨.ofContext context, place.inner⟩)).Holds Q E
        fun log => log.isEmpty → Sat ⟨node, place.inner⟩ value)
    (casts : ∀ node ∈ alternatives, Sat ⟨node, place.inner⟩ value →
      (castNode node value ⟨.ofContext context, place.inner⟩).Holds Q E fun _ => True) :
    (castFirst checkNode castNode value ⟨.ofContext context, place.inner⟩ alternatives).Holds Q E
      fun _ => True := by
  induction alternatives with
  | nil => exact .pure trivial
  | cons node rest ih =>
    refine .bind (tried node (by simp)) fun log hlog => ?_
    split
    · next empty => exact casts node (by simp) (hlog empty)
    · exact ih (fun other hother => tried other (by simp [hother]))
        fun other hother => casts other (by simp [hother])

theorem holds_castAll (value output : Json) (alternatives : List Node)
    (tried : ∀ node ∈ alternatives,
      (Check.trial (checkNode node value ⟨.ofContext context, place.inner⟩)).Holds Q E
        fun _ => True)
    (applied : ∀ node ∈ alternatives, ∀ output,
      (castNode node output ⟨.ofContext context, place.inner⟩).Holds Q E fun _ => True) :
    (castAll checkNode castNode value ⟨.ofContext context, place.inner⟩ output alternatives).Holds
      Q E fun _ => True := by
  induction alternatives generalizing output with
  | nil => exact .pure trivial
  | cons node rest ih =>
    have others (output : Json) : (castAll checkNode castNode value
        ⟨.ofContext context, place.inner⟩ output rest).Holds Q E fun _ => True :=
      ih output (fun other hother => tried other (by simp [hother]))
        fun other hother => applied other (by simp [hother])
    refine .bind (tried node (by simp)) fun log _ => ?_
    split
    · exact .bind (applied node (by simp) output) fun next _ => others next
    · exact others output

/-- The first alternative is applied to the value itself, which satisfies it. -/
theorem holds_castAll_of_meets (value : Json) (alternatives : List Node)
    (met : Combinator.Meets Sat place .allOf alternatives value)
    (tried : ∀ node ∈ alternatives,
      (Check.trial (checkNode node value ⟨.ofContext context, place.inner⟩)).Holds Q E
        fun _ => True)
    (casts : ∀ node ∈ alternatives, Sat ⟨node, place.inner⟩ value →
      (castNode node value ⟨.ofContext context, place.inner⟩).Holds Q E fun _ => True)
    (applied : ∀ node ∈ alternatives.tail, ∀ output,
      (castNode node output ⟨.ofContext context, place.inner⟩).Holds Q E fun _ => True) :
    (castAll checkNode castNode value ⟨.ofContext context, place.inner⟩ value alternatives).Holds
      Q E fun _ => True := by
  cases alternatives with
  | nil => exact .pure trivial
  | cons node rest =>
    have others (output : Json) : (castAll checkNode castNode value
        ⟨.ofContext context, place.inner⟩ output rest).Holds Q E fun _ => True :=
      holds_castAll value output rest (fun other hother => tried other (by simp [hother])) applied
    refine .bind (tried node (by simp)) fun log _ => ?_
    split
    · have first : (castNode node value ⟨.ofContext context, place.inner⟩).Holds Q E
          fun _ => True := casts node (by simp) (met node (by simp))
      exact .bind first fun next _ => others next
    · exact others value

end Combinator

/-- A value that is missing is cast to null, any other one by the rules of the kind. -/
theorem Node.castWith_of_present (checkNode : NodeCheck σ) (castNode : NodeCast σ) (node : Node)
    (value : Json) (scope : Scope σ) :
    (node.present value = .error none → node.castWith checkNode castNode value scope = pure .null) ∧
      ∀ seen, node.present value = .ok seen →
        node.castWith checkNode castNode value scope =
          node.kind.cast checkNode castNode seen (scope.enter node) := by
  unfold present castWith
  by_cases missing : (node.seen value).isNull
  · by_cases required : node.options.required
    · simp [missing, required]
    · cases node.default? with
      | none => simp [missing, required]
      | some default =>
        by_cases accepted : node.kind.accepts default
        · simp [missing, required, accepted]
        · simp [missing, required, accepted]
  · by_cases accepted : node.kind.accepts (node.seen value)
    · simp [missing, accepted]
    · simp [missing, accepted]

namespace Place

/-- What a cast of a value does at a place holds, apart from the casts of values by nodes that they
satisfy: the look-ups, the trials, the casts of the elements that a search finds, and the casts of
results by further alternatives. -/
structure Ready (context : Context) (Sat : Place → Json → Prop) (place : Place)
    (checkNode : NodeCheck σ) (castNode : NodeCast σ) (Q : σ → Prop) (E : Fault → Prop)
    (value : Json) : Prop where
  looked : ∀ rules, place.node.kind = .hash rules → ∀ fields, value = .obj fields →
    ∀ name ∈ rules.includes, ∀ taken,
      (rules.includedBy ⟨(.ofContext context : Resolver σ), place.inner⟩ taken name).Holds Q E
        fun _ => True
  searched : ∀ rules, place.node.kind = .array rules → ∀ node ∈ rules.contains, ∀ item,
    (Check.trial (checkNode node item ⟨.ofContext context, place.inner⟩)).Holds Q E
      fun log => log.isEmpty →
        (castNode node item ⟨.ofContext context, place.inner⟩).Holds Q E fun _ => True
  tried : ∀ combinator alternatives blankAsNull,
    place.node.kind = .combination combinator alternatives blankAsNull → ∀ node ∈ alternatives,
      (Check.trial (checkNode node value ⟨.ofContext context, place.inner⟩)).Holds Q E
        fun log => log.isEmpty → Sat ⟨node, place.inner⟩ value
  applied : ∀ alternatives blankAsNull,
    place.node.kind = .combination .allOf alternatives blankAsNull →
      ∀ node ∈ alternatives.tail, ∀ output,
        (castNode node output ⟨.ofContext context, place.inner⟩).Holds Q E fun _ => True

variable (casts : ∀ target, place.Step context target → ∀ value, Sat target value →
  (castNode target.node value (target.scope (.ofContext context))).Holds Q E fun _ => True)

include casts in
theorem holds_castKind {value : Json}
    (ready : place.Ready context Sat checkNode castNode Q E value)
    (met : place.node.kind.Meets context Sat place value) :
    (place.node.kind.cast checkNode castNode value ⟨.ofContext context, place.inner⟩).Holds Q E
      fun _ => True := by
  cases kind : place.node.kind with
  | hash rules =>
    rw [kind] at met
    cases value with
    | obj fields =>
      exact HashRules.holds_cast casts kind (ready.looked rules kind fields rfl) fields
        (met fields rfl)
    | _ => exact .pure trivial
  | array rules =>
    rw [kind] at met
    exact ArrayRules.holds_cast casts kind (ready.searched rules kind) value met
  | combination combinator alternatives blankAsNull =>
    rw [kind] at met
    have tried := ready.tried combinator alternatives blankAsNull kind
    have owned : ∀ node ∈ alternatives, node ∈ place.node.children := by
      simp [Node.children, kind]
    have casts (node : Node) (mem : node ∈ alternatives) (sat : Sat ⟨node, place.inner⟩ value) :
        (castNode node value ⟨.ofContext context, place.inner⟩).Holds Q E fun _ => True :=
      casts _ (.child (owned node mem)) value sat
    have first : (Combinator.castFirst checkNode castNode value ⟨.ofContext context, place.inner⟩
        alternatives).Holds Q E fun _ => True :=
      Combinator.holds_castFirst Sat value alternatives tried casts
    cases combinator with
    | allOf =>
      exact Combinator.holds_castAll_of_meets value alternatives met
        (fun node mem => (tried node mem).imp fun _ _ => trivial) casts
        (ready.applied alternatives blankAsNull kind)
    | anyOf => exact first
    | oneOf => exact first
    | not => exact .pure trivial
  | reference name =>
    rw [kind] at met
    obtain ⟨target, leads, sat⟩ := met
    rw [Kind.cast, Scope.target_of_leads leads, pure_bind]
    exact casts target (.reference kind leads) value sat
  | _ => exact .pure trivial

include casts in
/-- What holds of the casts of values by the inner nodes that they satisfy holds of the cast. -/
theorem holds_castWith {value : Json} (met : place.Meets context Sat value)
    (ready : ∀ seen, place.node.present value = .ok seen →
      place.Ready context Sat checkNode castNode Q E seen) :
    (place.node.castWith checkNode castNode value (place.scope (.ofContext context))).Holds Q E
      fun _ => True := by
  obtain ⟨missing, given⟩ := Node.castWith_of_present checkNode castNode place.node value
    (place.scope (.ofContext context))
  rw [meets_iff] at met
  cases hpresent : place.node.present value with
  | error violation =>
    simp only [hpresent] at met
    rw [missing (by rw [hpresent, met])]
    exact .pure trivial
  | ok seen =>
    simp only [hpresent] at met
    rw [given seen hpresent, place.enter_scope]
    exact holds_castKind casts (ready seen hpresent) met.2

end Place

end SchemaCast
