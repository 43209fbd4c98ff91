import SchemaCast.Proofs.Acceptance
import SchemaCast.Proofs.Renewal.Hash

/-!
# What a hash is cast to

`HashRules.CastEntry` says which entries the cast form of an object has: one for each property,
declared or included, that is given or cast to something, and one for each further field that a
pattern property or the policy for additional properties admits. If no two of these are written
under one name, then a cast writes just these entries, each one once, although the properties, the
included ones and the further fields are written by three loops into one object.
-/
namespace SchemaCast

variable {σ : Type} {context : Context}

/-! ### Objects that list a relation -/

namespace Entries

/-- Every name is there once, and has just the value that a relation gives it. -/
structure Lists {α : Type} (W : String → α → Prop) (entries : Entries α) : Prop where
  once : entries.keys.Nodup
  get?_iff : ∀ key value, entries.get? key = some value ↔ W key value

namespace Lists

variable {α : Type} {W W' : String → α → Prop} {entries : Entries α} {key : String} {value : α}

theorem mem_iff (h : entries.Lists W) : (key, value) ∈ entries ↔ W key value := by
  rw [← h.get?_iff]
  exact ⟨get?_of_mem h.once, mem_of_get?⟩

theorem contains_iff (h : entries.Lists W) : entries.contains key ↔ ∃ value, W key value := by
  rw [contains, Option.isSome_iff_exists]
  simp only [h.get?_iff]

theorem congr (h : entries.Lists W) (same : ∀ key value, W key value ↔ W' key value) :
    entries.Lists W' where
  once := h.once
  get?_iff key value := (h.get?_iff key value).trans (same key value)

theorem nil : Lists (fun _ (_ : α) => False) [] where
  once := .nil
  get?_iff _ _ := by simp

/-- What is written over an old value must not change it. -/
theorem insert (h : entries.Lists W) (same : ∀ old, W key old → old = value) :
    (entries.insert key value).Lists fun name v => W name v ∨ (name = key ∧ v = value) where
  once := nodup_keys_insert h.once key value
  get?_iff name v := by
    by_cases here : name = key
    · subst here
      rw [get?_insert_self, Option.some.injEq, eq_comm]
      exact ⟨fun h => .inr ⟨rfl, h⟩, fun h => h.elim (same v) And.right⟩
    · rw [get?_insert_of_ne _ _ here, h.get?_iff]
      exact (or_iff_left fun both => here both.1).symm

end Lists

end Entries

/-! ### Properties -/

/-- A value is cast to a result at a place, within some bound. -/
def Place.Casts (context : Context) (place : Place) (value result : Json) : Prop :=
  ∃ bound, (place.cast bound (.ofContext context) value ()).1 = .ok result

theorem Place.Casts.unique {place : Place} {value result other : Json}
    (h : place.Casts context value result) (h' : place.Casts context value other) :
    result = other := by
  obtain ⟨bound, hresult⟩ := h
  obtain ⟨bound', hother⟩ := h'
  have long : place.cast (max bound bound') (.ofContext context) value () =
      place.cast bound (.ofContext context) value () :=
    place.cast_of_le value (Nat.le_max_left _ _) (by simp [hresult])
  have long' : place.cast (max bound bound') (.ofContext context) value () =
      place.cast bound' (.ofContext context) value () :=
    place.cast_of_le value (Nat.le_max_right _ _) (by simp [hother])
  rw [← long, long', hother] at hresult
  exact (Except.ok.inj hresult).symm

theorem Place.gives_cast (place : Place) (bound : Nat) (value : Json) :
    (place.cast bound (.ofContext context : Resolver σ) value).Gives
      (place.Casts context value) := by
  intro s _
  refine ⟨trivial, fun result hresult => ⟨bound, ?_⟩, fun _ _ => trivial⟩
  rw [← hresult]
  exact place.cast_state bound value () s

/-- The key of a property and the place of its node. -/
structure Property where
  key : String
  place : Place

namespace Property

/-- The name under which a property is written. -/
def outputName (p : Property) : String := p.place.node.options.outputName.getD p.key

/-- What is written for a property: the cast form of its value, or of null if it is missing. What is
missing and cast to null is not written. -/
structure Writes (context : Context) (fields : Entries Json) (p : Property) (value : Json) :
    Prop where
  casts : p.place.Casts context (fields.valueAt p.key) value
  kept : fields.contains p.key ∨ value.isNull = false

end Property

namespace HashRules

section Specification

variable (context : Context) (place : Place) (rules : HashRules)

/-- The properties of a hash are the declared ones and the included ones. -/
inductive Has : Property → Prop where
  | declared {entry : String × Node} (mem : entry ∈ rules.properties) :
      Has ⟨entry.1, ⟨entry.2, place.inner⟩⟩
  | included {entry : String × Node} {target : Place}
      (includes : rules.Includes context place entry target) :
      Has ⟨entry.1, ⟨entry.2, target.inner⟩⟩

/-- A pattern property or the policy for additional properties admits a further key. -/
def Admits (key : String) : Prop := rules.patternFor? key = none → rules.additional ≠ .reject

/-- What a further field is cast to: by its pattern property, or else by the policy for all
others. -/
def CastsExtra (field : String × Json) (result : Json) : Prop :=
  match rules.patternFor? field.1 with
  | some node => Place.Casts context ⟨node, place.inner⟩ field.2 result
  | none =>
    match rules.additional with
    | .allow => result = field.2
    | .schema node => Place.Casts context ⟨node, place.inner⟩ field.2 result
    | .reject => False

/-- The entries of the cast form of an object. -/
inductive CastEntry (fields : Entries Json) : String → Json → Prop where
  | property {p : Property} {value : Json} (has : rules.Has context place p)
      (writes : p.Writes context fields value) : CastEntry fields p.outputName value
  | extra {field : String × Json} {value : Json} (mem : field ∈ fields)
      (further : rules.Extra context place field.1)
      (casts : rules.CastsExtra context place field value) : CastEntry fields field.1 value

/-- An object is the cast form of the fields of another one. -/
structure CastForm (fields output : Entries Json) : Prop where
  once : output.keys.Nodup
  mem_iff : ∀ key value, (key, value) ∈ output ↔ rules.CastEntry context place fields key value
  /-- Every property has a cast form, be it written or not. -/
  properties : ∀ p, rules.Has context place p →
    ∃ value, p.place.Casts context (fields.valueAt p.key) value
  extras : ∀ field ∈ fields, rules.Extra context place field.1 → rules.Admits field.1 →
    output.contains field.1
  /-- Every field has its entry, unless its key is to be ignored. -/
  represented : ∀ field ∈ fields, ¬ rules.ignored.covers field.1 →
    (∃ p, rules.Has context place p ∧ p.key = field.1 ∧ output.contains p.outputName) ∨
      (rules.Extra context place field.1 ∧ output.contains field.1)

end Specification

variable {place : Place} {rules : HashRules} {castNode : NodeCast σ}
  {fields output : Entries Json} {done : Property → Prop}

/-- An object lists what is written for the properties that are done. -/
structure Filled (context : Context) (fields : Entries Json) (done : Property → Prop)
    (output : Entries Json) : Prop where
  cast : ∀ p, done p → ∃ value, p.place.Casts context (fields.valueAt p.key) value
  written : output.Lists fun name value =>
    ∃ p, done p ∧ p.outputName = name ∧ p.Writes context fields value

theorem Filled.congr {done' : Property → Prop} (h : Filled context fields done output)
    (same : ∀ p, done p ↔ done' p) : Filled context fields done' output where
  cast p hp := h.cast p ((same p).mpr hp)
  written := h.written.congr fun _ _ => exists_congr fun p => and_congr_left fun _ => same p

theorem gives_castProperty {p : Property} {scope : Scope σ}
    (filled : Filled context fields done output)
    (apart : ∀ other, done other → other.outputName = p.outputName → other = p)
    (casts : (castNode p.place.node (fields.valueAt p.key) scope).Gives
      (p.place.Casts context (fields.valueAt p.key))) :
    (castProperty castNode fields scope output (p.key, p.place.node)).Gives
      (Filled context fields fun other => done other ∨ other = p) := by
  refine .bind casts fun result hresult => ?_
  have writes_iff {value : Json} : p.Writes context fields value ↔
      value = result ∧ (fields.contains p.key ∨ result.isNull = false) := by
    constructor
    · intro h
      obtain rfl := h.casts.unique hresult
      exact ⟨rfl, h.kept⟩
    · rintro ⟨rfl, kept⟩
      exact ⟨hresult, kept⟩
  have cast (other : Property) (hother : done other ∨ other = p) :
      ∃ value, other.place.Casts context (fields.valueAt other.key) value := by
    rcases hother with hdone | rfl
    · exact filled.cast other hdone
    · exact ⟨result, hresult⟩
  split
  · next kept =>
    have kept : fields.contains p.key ∨ result.isNull = false := by simpa using kept
    refine .pure ⟨cast, (filled.written.insert fun old hold => ?_).congr fun name value => ?_⟩
    · obtain ⟨other, hdone, named, writes⟩ := hold
      obtain rfl := apart other hdone named
      exact (writes_iff.mp writes).1
    · constructor
      · rintro (⟨other, hdone, named, writes⟩ | ⟨rfl, rfl⟩)
        · exact ⟨other, .inl hdone, named, writes⟩
        · exact ⟨p, .inr rfl, rfl, writes_iff.mpr ⟨rfl, kept⟩⟩
      · rintro ⟨other, hdone | rfl, named, writes⟩
        · exact .inl ⟨other, hdone, named, writes⟩
        · exact .inr ⟨named.symm, (writes_iff.mp writes).1⟩
  · next dropped =>
    have dropped : ¬ (fields.contains p.key ∨ result.isNull = false) := by simpa using dropped
    refine .pure ⟨cast, filled.written.congr fun name value => exists_congr fun other => ?_⟩
    refine ⟨fun h => ⟨.inl h.1, h.2⟩, ?_⟩
    rintro ⟨hdone | rfl, named, writes⟩
    · exact ⟨hdone, named, writes⟩
    · exact absurd (writes_iff.mp writes).2 dropped

/-- Properties of hashes written one after the other, of which no two share an output name. -/
theorem gives_castProperties {scope : Scope σ} {around : List Definitions}
    {all : Property → Prop}
    (apart : ∀ p q, all p → all q → p.outputName = q.outputName → p = q)
    (entries : List (String × Node)) (new : ∀ entry ∈ entries, all ⟨entry.1, ⟨entry.2, around⟩⟩)
    (before : ∀ p, done p → all p) (filled : Filled context fields done output)
    (casts : ∀ entry ∈ entries, ∀ value, (castNode entry.2 value scope).Gives
      (Place.Casts context ⟨entry.2, around⟩ value)) :
    (castProperties castNode fields scope output entries).Gives
      (Filled context fields fun p => done p ∨
        ∃ entry ∈ entries, p = ⟨entry.1, ⟨entry.2, around⟩⟩) := by
  induction entries generalizing done output with
  | nil => exact .pure (filled.congr fun p => by simp)
  | cons entry rest ih =>
    obtain ⟨known, others⟩ := List.forall_mem_cons.mp new
    have first : (castProperty castNode fields scope output entry).Gives
        (Filled context fields fun p => done p ∨ p = ⟨entry.1, ⟨entry.2, around⟩⟩) :=
      gives_castProperty (p := ⟨entry.1, ⟨entry.2, around⟩⟩) filled
        (fun other hdone named => apart _ _ (before other hdone) known named)
        (casts entry (List.mem_cons_self ..) _)
    refine .bind first fun next hnext => ?_
    refine (ih others ?_ hnext fun other mem => casts other (List.mem_cons_of_mem _ mem)).imp
      fun last h => h.congr fun p => ?_
    · rintro p (hdone | rfl)
      · exact before p hdone
      · exact known
    · simp [or_assoc]

/-- `Includes`, as far as some of the includes go. -/
def IncludesWithin (context : Context) (place : Place) (rules : HashRules) (names : List String)
    (entry : String × Node) (target : Place) : Prop :=
  ∃ earlier name later properties, names = earlier ++ name :: later ∧
    Offers context place name target properties ∧ entry ∈ properties ∧
    ¬ rules.declares entry.1 ∧ ¬ Offered context place earlier entry.1

theorem includesWithin_append_singleton {names : List String} {name : String} {target : Place}
    {properties : List (String × Node)} (offers : Offers context place name target properties)
    {entry : String × Node} {origin : Place} :
    IncludesWithin context place rules (names ++ [name]) entry origin ↔
      IncludesWithin context place rules names entry origin ∨
        (origin = target ∧ entry ∈ properties ∧ ¬ rules.declares entry.1 ∧
          ¬ Offered context place names entry.1) := by
  constructor
  · rintro ⟨earlier, other, later, offered, split, offers', mem, undeclared, first⟩
    rcases List.eq_nil_or_concat later with rfl | ⟨later, last, rfl⟩
    · obtain ⟨rfl, same⟩ := List.append_inj' split rfl
      obtain rfl : name = other := by simpa using same
      obtain ⟨rfl, rfl⟩ := offers.unique offers'
      exact .inr ⟨rfl, mem, undeclared, first⟩
    · have split : names ++ [name] = (earlier ++ other :: later) ++ [last] := by simpa using split
      obtain ⟨rfl, -⟩ := List.append_inj' split rfl
      exact .inl ⟨earlier, other, later, offered, rfl, offers', mem, undeclared, first⟩
  · rintro (⟨earlier, other, later, offered, rfl, rest⟩ | ⟨rfl, mem, undeclared, first⟩)
    · exact ⟨earlier, other, later ++ [name], offered, by simp, rest⟩
    · exact ⟨names, name, [], properties, rfl, offers, mem, undeclared, first⟩

/-- The declared properties, and the included ones as far as some of the includes go. -/
def HasWithin (context : Context) (place : Place) (rules : HashRules) (names : List String)
    (p : Property) : Prop :=
  (∃ entry ∈ rules.properties, p = ⟨entry.1, ⟨entry.2, place.inner⟩⟩) ∨
    ∃ entry target, IncludesWithin context place rules names entry target ∧
      p = ⟨entry.1, ⟨entry.2, target.inner⟩⟩

theorem hasWithin_all {p : Property} :
    HasWithin context place rules rules.includes p ↔ rules.Has context place p := by
  constructor
  · rintro (⟨entry, mem, rfl⟩ | ⟨entry, target, includes, rfl⟩)
    · exact .declared mem
    · exact .included includes
  · intro has
    cases has with
    | declared mem => exact .inl ⟨_, mem, rfl⟩
    | included includes => exact .inr ⟨_, _, includes, rfl⟩

theorem HasWithin.mono {names : List String} {p : Property} (later : List String)
    (h : HasWithin context place rules names p) :
    HasWithin context place rules (names ++ later) p := by
  refine h.imp_right ?_
  rintro ⟨entry, target, ⟨earlier, name, between, properties, rfl, rest⟩, rfl⟩
  exact ⟨entry, target, ⟨earlier, name, between ++ later, properties, by simp, rest⟩, rfl⟩

section Nested

variable (casts : ∀ target, place.Step context target → ∀ value,
    (castNode target.node value (target.scope (.ofContext context))).Gives
      (target.Casts context value))
  (kind : place.node.kind = .hash rules)

include casts kind

theorem gives_castIncludes
    (apart : ∀ p q, rules.Has context place p → rules.Has context place q →
      p.outputName = q.outputName → p = q)
    {earlier names taken : List String} (hnames : rules.includes = earlier ++ names)
    (htaken : ∀ key, ¬ rules.declares key → (key ∈ taken ↔ Offered context place earlier key))
    (filled : Filled context fields (HasWithin context place rules earlier) output) :
    (castIncludes castNode rules fields ⟨.ofContext context, place.inner⟩ taken output names).Gives
      fun found => Filled context fields (rules.Has context place) found.1 ∧
        ∀ key, ¬ rules.declares key →
          (key ∈ found.2 ↔ Offered context place rules.includes key) := by
  induction names generalizing earlier taken output with
  | nil =>
    rw [List.append_nil] at hnames
    subst hnames
    exact .pure ⟨filled.congr fun _ => hasWithin_all, htaken⟩
  | cons name rest ih =>
    have listed : name ∈ rules.includes := by rw [hnames]; simp
    refine .bind (gives_includedBy rules taken name) ?_
    rintro ⟨fresh, _⟩ ⟨target, properties, offers, rfl, hfresh⟩
    obtain ⟨leads, targetRules, hash, rfl⟩ := id offers
    have split : rules.includes = (earlier ++ [name]) ++ rest := by simp [hnames]
    have adds (p : Property) : (HasWithin context place rules earlier p ∨
        ∃ entry ∈ fresh, p = ⟨entry.1, ⟨entry.2, target.inner⟩⟩) ↔
        HasWithin context place rules (earlier ++ [name]) p := by
      simp only [HasWithin, includesWithin_append_singleton offers, or_and_right, exists_or,
        or_assoc]
      refine or_congr_right (or_congr_right ?_)
      constructor
      · rintro ⟨entry, mem, rfl⟩
        obtain ⟨mem, undeclared, new⟩ := (hfresh entry).mp mem
        rw [htaken entry.1 undeclared] at new
        exact ⟨entry, target, ⟨rfl, mem, undeclared, new⟩, rfl⟩
      · rintro ⟨entry, _, ⟨rfl, mem, undeclared, new⟩, rfl⟩
        rw [← htaken entry.1 undeclared] at new
        exact ⟨entry, (hfresh entry).mpr ⟨mem, undeclared, new⟩, rfl⟩
    have known (p : Property) (h : HasWithin context place rules (earlier ++ [name]) p) :
        rules.Has context place p := by
      rw [← hasWithin_all, split]
      exact h.mono rest
    refine .bind (gives_castProperties apart fresh (fun entry mem => known _ ((adds _).mp
      (.inr ⟨entry, mem, rfl⟩))) (fun p h => known p ((adds p).mp (.inl h))) filled
        fun entry mem => casts _ (.included kind listed leads hash ((hfresh entry).mp mem).1))
      fun next hnext => ?_
    exact ih split (taken_append offers hfresh htaken) (hnext.congr adds)

theorem gives_castExtra {W : String → Json → Prop} {field : String × Json}
    (listed : output.Lists W) (new : ∀ value, ¬ W field.1 value) :
    (castExtra castNode rules ⟨.ofContext context, place.inner⟩ output field).Gives fun next =>
      next.Lists (fun name value => W name value ∨
        (name = field.1 ∧ rules.CastsExtra context place field value)) ∧
      (rules.Admits field.1 → ∃ value, rules.CastsExtra context place field value) := by
  have unwritten : ¬ output.contains field.1 := by simpa [listed.contains_iff] using new
  have written {result : Json}
      (only : ∀ value, rules.CastsExtra context place field value ↔ value = result) :
      (output.insertNew field.1 result).Lists (fun name value => W name value ∨
        (name = field.1 ∧ rules.CastsExtra context place field value)) ∧
      (rules.Admits field.1 → ∃ value, rules.CastsExtra context place field value) := by
    rw [Entries.insertNew_eq_insert unwritten]
    refine ⟨(listed.insert fun old hold => absurd hold (new old)).congr fun name value => ?_,
      fun _ => ⟨result, (only result).mpr rfl⟩⟩
    rw [only]
  have cast (node : Node) (owned : node ∈ place.node.children)
      (by_node : ∀ value, rules.CastsExtra context place field value ↔
        Place.Casts context ⟨node, place.inner⟩ field.2 value) :
      Run.Gives (do
        return output.insertNew field.1
          (← castNode node field.2 ⟨.ofContext context, place.inner⟩)) fun next =>
        next.Lists (fun name value => W name value ∨
          (name = field.1 ∧ rules.CastsExtra context place field value)) ∧
        (rules.Admits field.1 → ∃ value, rules.CastsExtra context place field value) := by
    refine .bind (casts _ (.child owned) field.2) fun result hresult => ?_
    refine .pure (written fun value => ?_)
    rw [by_node]
    exact ⟨fun h => h.unique hresult, fun h => h ▸ hresult⟩
  unfold castExtra
  cases found : rules.patternFor? field.1 with
  | some node =>
    exact cast node (place.node.mem_children_of_patternFor? kind found)
      fun value => by simp [CastsExtra, found]
  | none =>
    cases policy : rules.additional with
    | allow => exact .pure (written fun value => by simp [CastsExtra, found, policy])
    | schema node =>
      exact cast node (place.node.mem_children_of_additional kind policy)
        fun value => by simp [CastsExtra, found, policy]
    | reject =>
      refine .pure ⟨listed.congr fun name value => ?_, fun admits => absurd policy (admits found)⟩
      simp [CastsExtra, found, policy]

theorem gives_castExtras {W : String → Json → Prop} {extras : Entries Json}
    (listed : output.Lists W) (once : extras.keys.Nodup)
    (new : ∀ field ∈ extras, ∀ value, ¬ W field.1 value) :
    (castExtras castNode rules ⟨.ofContext context, place.inner⟩ output extras).Gives fun next =>
      next.Lists (fun name value => W name value ∨
        ∃ field ∈ extras, name = field.1 ∧ rules.CastsExtra context place field value) ∧
      ∀ field ∈ extras, rules.Admits field.1 →
        ∃ value, rules.CastsExtra context place field value := by
  induction extras generalizing output W with
  | nil => exact .pure ⟨listed.congr fun _ _ => by simp, by simp⟩
  | cons field rest ih =>
    obtain ⟨fresh, once⟩ := List.nodup_cons.mp once
    obtain ⟨now, later⟩ := List.forall_mem_cons.mp new
    refine .bind (gives_castExtra casts kind listed now) fun next hnext => ?_
    refine (ih hnext.1 once fun other mem value => ?_).imp fun last hlast => ?_
    · rintro (before | ⟨same, -⟩)
      · exact later other mem value before
      · exact fresh (same ▸ List.mem_map_of_mem mem)
    · refine ⟨hlast.1.congr fun name value => ?_, List.forall_mem_cons.mpr ⟨hnext.2, hlast.2⟩⟩
      simp [or_assoc]

/-- The three loops together write the entries of the cast form. -/
theorem gives_cast
    (apart : ∀ p q, rules.Has context place p → rules.Has context place q →
      p.outputName = q.outputName → p = q)
    (separate : ∀ p, rules.Has context place p → ∀ field ∈ fields,
      rules.Extra context place field.1 → p.outputName ≠ field.1)
    (distinct : fields.keys.Nodup) :
    (rules.cast castNode fields ⟨.ofContext context, place.inner⟩).Gives fun result =>
      ∃ written : Entries Json, result = .obj written ∧
        written.Lists (rules.CastEntry context place fields) ∧
        (∀ p, rules.Has context place p →
          ∃ value, p.place.Casts context (fields.valueAt p.key) value) ∧
        ∀ field ∈ fields, rules.Extra context place field.1 → rules.Admits field.1 →
          ∃ value, rules.CastsExtra context place field value := by
  have start : Filled context fields (fun _ => False) [] :=
    ⟨fun _ none => none.elim, Entries.Lists.nil.congr fun _ _ => by simp⟩
  have declared (p : Property) : (False ∨ ∃ entry ∈ rules.properties,
      p = ⟨entry.1, ⟨entry.2, place.inner⟩⟩) ↔ HasWithin context place rules [] p := by
    simp [HasWithin, IncludesWithin]
  refine .bind (gives_castProperties apart rules.properties (fun entry mem => .declared mem)
    (fun _ none => none.elim) start fun entry mem =>
      casts _ (.child (place.node.mem_children_of_property kind mem))) fun output houtput => ?_
  refine .bind (gives_castIncludes casts kind apart rfl (by simp [Offered])
    (houtput.congr declared)) ?_
  rintro ⟨output, taken⟩ ⟨filled, htaken⟩
  have isExtra (field : String × Json) : field ∈ rules.extras taken fields ↔
      field ∈ fields ∧ rules.Extra context place field.1 := mem_extras htaken field
  refine .bind (gives_castExtras casts kind filled.written
    (distinct.sublist (List.filter_sublist.map _)) ?_) fun written hwritten => .pure ?_
  · rintro field mem value ⟨p, has, named, -⟩
    obtain ⟨mem, further⟩ := (isExtra field).mp mem
    exact separate p has field mem further named
  · refine ⟨written, rfl, hwritten.1.congr fun name value => ?_, filled.cast,
      fun field mem further => hwritten.2 field ((isExtra field).mpr ⟨mem, further⟩)⟩
    constructor
    · rintro (⟨p, has, rfl, writes⟩ | ⟨field, mem, rfl, result⟩)
      · exact .property has writes
      · obtain ⟨mem, further⟩ := (isExtra field).mp mem
        exact .extra mem further result
    · intro entry
      cases entry with
      | property has writes => exact .inl ⟨_, has, rfl, writes⟩
      | extra mem further result =>
        exact .inr ⟨_, (isExtra _).mpr ⟨mem, further⟩, rfl, result⟩

end Nested

/-- A key that some include offers and that is not declared belongs to an included property. -/
theorem exists_includes {key : String} (undeclared : ¬ rules.declares key)
    (offered : Offered context place rules.includes key) :
    ∃ entry target, rules.Includes context place entry target ∧ entry.1 = key := by
  classical
  obtain ⟨name, mem, given⟩ := offered
  have some : (rules.includes.find? fun name => decide (∃ target properties,
      Offers context place name target properties ∧ key ∈ properties.map Prod.fst)).isSome :=
    List.find?_isSome.mpr ⟨name, mem, decide_eq_true given⟩
  obtain ⟨name, found⟩ := Option.isSome_iff_exists.mp some
  obtain ⟨given, earlier, later, split, first⟩ := List.find?_eq_some_iff_append.mp found
  obtain ⟨target, properties, offers, known⟩ := of_decide_eq_true given
  obtain ⟨entry, mem, rfl⟩ := List.mem_map.mp known
  refine ⟨entry, target, ⟨earlier, name, later, properties, split, offers, mem, undeclared, ?_⟩,
    rfl⟩
  rintro ⟨other, before, given⟩
  exact of_decide_eq_false (by simpa using first other before) given

/-- The key of a field is that of a property, or the field is a further one. -/
theorem has_or_extra (key : String) :
    (∃ p, rules.Has context place p ∧ p.key = key) ∨ rules.Extra context place key := by
  by_cases declared : rules.declares key
  · obtain ⟨entry, mem, rfl⟩ := List.mem_map.mp (Entries.contains_iff.mp declared)
    exact .inl ⟨_, .declared mem, rfl⟩
  · by_cases offered : Offered context place rules.includes key
    · obtain ⟨entry, target, includes, rfl⟩ := exists_includes declared offered
      exact .inl ⟨_, .included includes, rfl⟩
    · exact .inr ⟨declared, offered⟩

end HashRules

namespace Place

open HashRules

/-- If a valid object is cast by a hash, and no two properties are written under one name, nor one
of them under the key of a further field, then the object that comes out is the cast form of
the fields: no key is lost, but those that are to be ignored, and none is invented. This holds for
every bound on the depth, those of `Node.validate` and `Node.cast` included. -/
theorem castForm_of_valid {place : Place} {rules : HashRules} {fields : Entries Json}
    {fuel bound : Nat} {s t : σ} {log : ErrorLog} {output : Json}
    (kind : place.node.kind = .hash rules)
    (valid : (place.validate fuel (.ofContext context) (.obj fields) s).1 = .ok log)
    (empty : log.isEmpty)
    (cast : (place.cast bound (.ofContext context) (.obj fields) t).1 = .ok output)
    (apart : ∀ p q, rules.Has context place p → rules.Has context place q →
      p.outputName = q.outputName → p = q)
    (separate : ∀ p, rules.Has context place p → ∀ field ∈ fields,
      rules.Extra context place field.1 → p.outputName ≠ field.1) :
    ∃ written, output = .obj written ∧ rules.CastForm context place fields written := by
  have present : place.node.present (.obj fields) = .ok (.obj fields) := by
    simp [Node.present, Node.seen, kind, Json.isNull, Kind.accepts, ValueKind.covers]
  have met : rules.Meets context (Accepts context) place fields := by
    have accepts : place.Accepts context (.obj fields) := ⟨fuel, acceptsBy_of_validate valid empty⟩
    have meets := (meets_iff _).mp accepts.meets
    simp only [present, kind] at meets
    exact meets.2 fields rfl
  have distinct : fields.keys.Nodup :=
    met.distinct.imp fun differ same => differ (congrArg foldKey same)
  cases bound with
  | zero => cases cast
  | succ bound =>
    have run : place.cast (bound + 1) (.ofContext context : Resolver σ) (.obj fields) =
        rules.cast (Node.castTo bound) fields ⟨.ofContext context, place.inner⟩ := by
      change place.node.castWith _ _ _ _ = _
      rw [(place.node.castWith_of_present _ _ _ _).2 _ present, place.enter_scope, kind]
      rfl
    rw [run] at cast
    obtain ⟨written, rfl, lists, properties, extras⟩ := (HashRules.gives_cast (fun target _ value =>
      Place.gives_cast target bound value) kind apart separate distinct t trivial).2.1 output cast
    refine ⟨written, rfl, lists.once, fun _ _ => lists.mem_iff, properties, ?_, ?_⟩
    · intro field mem further admits
      obtain ⟨value, casts⟩ := extras field mem further admits
      exact lists.contains_iff.mpr ⟨value, .extra mem further casts⟩
    · intro field mem visible
      have sorted : (∃ p, rules.Has context place p ∧ p.key = field.1) ∨
          rules.Extra context place field.1 := has_or_extra field.1
      rcases sorted with ⟨p, has, same⟩ | further
      · obtain ⟨value, casts⟩ := properties p has
        have given : fields.contains p.key := by
          rw [same]
          exact Entries.contains_iff.mpr (List.mem_map_of_mem mem)
        exact .inl ⟨p, has, same, lists.contains_iff.mpr ⟨value, .property has ⟨casts, .inl given⟩⟩⟩
      · have admits : rules.Admits field.1 := fun none reject => by
          have ignored := met.extra field mem further
          simp only [MeetsExtra, none, reject] at ignored
          exact visible ignored
        obtain ⟨value, casts⟩ := extras field mem further admits
        exact .inr ⟨further, lists.contains_iff.mpr ⟨value, .extra mem further casts⟩⟩

/-- A hash with a property under another name, a default, an include and a key to be ignored. -/
theorem castForm_of_valid_renamed :
    let number : Node := ⟨{ outputName := some "x" }, .integer { castText := true }⟩
    let filled : Node := ⟨{ default := some (.int 7) }, .integer {}⟩
    let included : Node := ⟨{}, .hash { properties := [("c", ⟨{}, .symbol⟩)] }⟩
    let rules : HashRules :=
      { properties := [("a", number), ("d", filled)], includes := ["b"],
        ignored := .keys ["old"] }
    let root : Node := ⟨{}, .hash rules⟩
    let fields : Entries Json := [("a", .str "1"), ("old", .bool true), ("c", .str "s")]
    let written : Entries Json := [("x", .int 1), ("d", .int 7), ("c", .str "s")]
    (root.place.validate 3 (.ofContext [("b", included)] : Resolver Unit) (.obj fields) ()).1 =
        .ok {} ∧
      (root.place.cast 3 (.ofContext [("b", included)] : Resolver Unit) (.obj fields) ()).1 =
        .ok (.obj written) ∧
      rules.CastForm [("b", included)] root.place fields written := by
  intro number filled included rules root fields written
  have valid : (root.place.validate 3 (.ofContext [("b", included)] : Resolver Unit)
      (.obj fields) ()).1 = .ok {} := rfl
  have cast : (root.place.cast 3 (.ofContext [("b", included)] : Resolver Unit)
      (.obj fields) ()).1 = .ok (.obj written) := rfl
  have only (p : Property) (has : rules.Has [("b", included)] root.place p) :
      p ∈ [⟨"a", ⟨number, []⟩⟩, ⟨"d", ⟨filled, []⟩⟩, ⟨"c", (⟨⟨{}, .symbol⟩, []⟩ : Place)⟩] := by
    cases has with
    | declared mem =>
      rcases List.mem_cons.mp mem with rfl | mem
      · exact List.mem_cons_self ..
      · obtain rfl := List.mem_singleton.mp mem
        exact List.mem_cons_of_mem _ (List.mem_cons_self ..)
    | included includes =>
      obtain ⟨earlier, name, later, _, split, ⟨leads, _, hash, rfl⟩, mem, -⟩ := includes
      have listed : name ∈ ["b"] := by
        show name ∈ rules.includes
        rw [split]
        simp
      obtain rfl := List.mem_singleton.mp listed
      cases leads
      cases hash
      obtain rfl := List.mem_singleton.mp mem
      exact List.mem_cons_of_mem _ (List.mem_cons_of_mem _ (List.mem_singleton_self _))
  have apart (p q : Property) (hp : rules.Has [("b", included)] root.place p)
      (hq : rules.Has [("b", included)] root.place q) (same : p.outputName = q.outputName) :
      p = q := by
    have hp := only p hp
    have hq := only q hq
    simp only [List.mem_cons, List.not_mem_nil, or_false] at hp hq
    rcases hp with rfl | rfl | rfl <;> rcases hq with rfl | rfl | rfl <;>
      first | rfl | exact absurd same (by decide)
  have separate (p : Property) (has : rules.Has [("b", included)] root.place p)
      (field : String × Json) (mem : field ∈ fields)
      (further : rules.Extra [("b", included)] root.place field.1) :
      p.outputName ≠ field.1 := by
    have offered : Offered [("b", included)] root.place rules.includes "c" :=
      ⟨"b", List.mem_singleton_self _, included.place, _, ⟨rfl, _, rfl, rfl⟩,
        List.mem_singleton_self _⟩
    have has := only p has
    simp only [List.mem_cons, List.not_mem_nil, or_false, fields] at has mem
    rcases mem with rfl | rfl | rfl
    · rcases has with rfl | rfl | rfl <;> decide
    · rcases has with rfl | rfl | rfl <;> decide
    · exact absurd offered further.2
  refine ⟨valid, cast, ?_⟩
  obtain ⟨_, same, form⟩ := castForm_of_valid rfl valid rfl cast apart separate
  cases same
  exact form

end Place

end SchemaCast
