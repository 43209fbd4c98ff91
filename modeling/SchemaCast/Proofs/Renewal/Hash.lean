import SchemaCast.Proofs.CastDescent

/-!
# The cast form of a hash

A cast of a hash writes every key but once, so that what is written stays as it is until the end.
If casts by the inner nodes renew values, that is, come to values that satisfy the same nodes again
and are missing exactly if they were, then the object that comes out has the keys of the input and
meets the rules of the hash again.
-/
namespace SchemaCast

variable {σ : Type} {context : Context} {Sat Again : Place → Json → Prop} {place : Place}
  {castNode : NodeCast σ} {Q : σ → Prop} {E : Fault → Prop}

/-- What a value is cast to satisfies a place again, and is missing exactly if the value is. -/
structure Place.Renews (Again : Place → Json → Prop) (place : Place) (value output : Json) :
    Prop where
  missing : output.isNull = value.isNull
  satisfied : Again place output

namespace Entries

/-- The value of a key, where a missing key counts as null. -/
abbrev valueAt (fields : Entries Json) (key : String) : Json := (fields.get? key).getD .null

variable {fields output next last : Entries Json} {done : String → Prop} {key : String}
  {result : Json}

theorem valueAt_of_not_contains (unknown : ¬ fields.contains key) :
    fields.valueAt key = .null := by
  have missing : fields.get? key = none := by simpa [contains] using unknown
  simp [valueAt, missing]

theorem contains_insert (output : Entries Json) (key other : String) (result : Json) :
    (output.insert key result).contains other ↔ other = key ∨ output.contains other := by
  by_cases same : other = key
  · simp [same, contains]
  · simp [same, contains, get?_insert_of_ne]

theorem insertNew_eq_insert (new : ¬ output.contains key) :
    output.insertNew key result = output.insert key result := by
  rw [insertNew, if_neg new]
  induction output with
  | nil => rfl
  | cons entry rest ih =>
    obtain ⟨name, old⟩ := entry
    have absent : key ∉ name :: keys rest := fun mem => new (contains_iff.mpr mem)
    rw [List.mem_cons, not_or] at absent
    rw [insert, if_neg (Ne.symm absent.1), ← ih fun known => absent.2 (contains_iff.mp known)]
    rfl

theorem nodup_keys_insert {α : Type} {entries : Entries α} (once : entries.keys.Nodup)
    (key : String) (value : α) : (entries.insert key value).keys.Nodup := by
  rw [keys_insert]
  split
  · exact once
  · next new =>
    refine List.nodup_append.mpr ⟨once, by simp, fun other mem last hlast same => ?_⟩
    rw [List.mem_singleton.mp hlast] at same
    subst same
    exact new (contains_iff.mpr mem)

/-- An object holds cast forms of the fields whose keys are done, and nothing else. -/
structure Carries (fields : Entries Json) (done : String → Prop) (output : Entries Json) :
    Prop where
  once : output.keys.Nodup
  contains : ∀ key, output.contains key ↔ done key ∧ fields.contains key
  missing : ∀ key, done key → (output.valueAt key).isNull = (fields.valueAt key).isNull

/-- An object holds cast forms for further keys, and what it holds for the keys that were done
before is untouched. -/
structure Adds (fields : Entries Json) (done : String → Prop) (keys : List String)
    (output next : Entries Json) : Prop where
  carries : Carries fields (fun key => done key ∨ key ∈ keys) next
  untouched : ∀ key, done key → next.get? key = output.get? key

namespace Carries

theorem congr {done' : String → Prop} (h : Carries fields done output)
    (same : ∀ key, done key ↔ done' key) : Carries fields done' output where
  once := h.once
  contains key := by rw [← same]; exact h.contains key
  missing key hdone := h.missing key ((same key).mpr hdone)

theorem nil (fields : Entries Json) (none : ∀ key, ¬ done key) : Carries fields done [] where
  once := .nil
  contains key := by simp [none key, Entries.contains]
  missing key hdone := absurd hdone (none key)

/-- A key that the fields do not have is done without being written. -/
theorem skip (h : Carries fields done output) (new : ¬ done key) (absent : ¬ fields.contains key) :
    Adds fields done [key] output output := by
  have unwritten : ¬ output.contains key := fun known => new ((h.contains key).mp known).1
  refine ⟨⟨h.once, fun other => ?_, fun other hother => ?_⟩, fun _ _ => rfl⟩
  · rw [h.contains, List.mem_singleton]
    by_cases same : other = key
    · simp [same, absent]
    · simp [same]
  · rcases hother with hdone | mem
    · exact h.missing other hdone
    · rw [List.mem_singleton.mp mem, valueAt_of_not_contains absent,
        valueAt_of_not_contains unwritten]

/-- A key that the fields have is done when its cast form is written. -/
theorem write (h : Carries fields done output) (new : ¬ done key) (known : fields.contains key)
    (missing : result.isNull = (fields.valueAt key).isNull) :
    Adds fields done [key] output (output.insert key result) := by
  have distinct {other : String} (hother : done other) : other ≠ key := by
    rintro rfl
    exact new hother
  refine ⟨⟨nodup_keys_insert h.once key result, fun other => ?_, fun other hother => ?_⟩,
    fun other hother => get?_insert_of_ne output result (distinct hother)⟩
  · rw [contains_insert, h.contains, List.mem_singleton]
    by_cases same : other = key
    · simp [same, known]
    · simp [same]
  · rcases hother with hdone | mem
    · simpa [valueAt, get?_insert_of_ne output result (distinct hdone)] using
        h.missing other hdone
    · simpa [List.mem_singleton.mp mem, valueAt] using missing

/-- The keys of a full object are those of the fields. -/
theorem keys_perm (h : Carries fields done output) (distinct : fields.keys.Nodup)
    (all : ∀ key, fields.contains key → done key) : output.keys.Perm fields.keys := by
  rw [List.perm_ext_iff_of_nodup h.once distinct]
  intro key
  rw [← contains_iff, ← contains_iff, h.contains]
  exact and_iff_right_of_imp (all key)

/-- What is missing in a full object is missing in the fields. -/
theorem isGiven_eq (h : Carries fields done output) (all : ∀ key, fields.contains key → done key)
    (key : String) : isGiven output key = isGiven fields key := by
  have given (fields : Entries Json) : isGiven fields key = !(fields.valueAt key).isNull := by
    unfold isGiven valueAt
    cases fields.get? key <;> rfl
  rw [given, given]
  by_cases hdone : done key
  · rw [h.missing key hdone]
  · have absent : ¬ fields.contains key := fun known => hdone (all key known)
    have unwritten : ¬ output.contains key := fun known => hdone ((h.contains key).mp known).1
    rw [valueAt_of_not_contains absent, valueAt_of_not_contains unwritten]

end Carries

namespace Adds

variable {keys more : List String}

theorem refl (h : Carries fields done output) : Adds fields done [] output output :=
  ⟨h.congr fun _ => by simp, fun _ _ => rfl⟩

theorem congr {done' : String → Prop} (h : Adds fields done keys output next)
    (same : ∀ key, done key ↔ done' key) : Adds fields done' keys output next :=
  ⟨h.carries.congr fun key => or_congr_left (same key),
    fun key hdone => h.untouched key ((same key).mpr hdone)⟩

theorem trans (h : Adds fields done keys output next)
    (h' : Adds fields (fun key => done key ∨ key ∈ keys) more next last) :
    Adds fields done (keys ++ more) output last where
  carries := h'.carries.congr fun _ => by rw [List.mem_append, or_assoc]
  untouched key hdone := (h'.untouched key (.inl hdone)).trans (h.untouched key hdone)

/-- If each round of a loop adds the cast form for a key of its own, then the loop adds those for
all keys. What a round has made true of its key stays true. -/
theorem foldlM {α : Type} {write : Entries Json → α → Run σ (Entries Json)} {key : α → String}
    {Good : α → Entries Json → Prop} {items : List α}
    (stable : ∀ item output next, Good item output →
      next.get? (key item) = output.get? (key item) → Good item next)
    (round : ∀ item ∈ items, ∀ done output, Carries fields done output → ¬ done (key item) →
      (write output item).Holds Q E fun next =>
        Adds fields done [key item] output next ∧ Good item next)
    (once : (items.map key).Nodup) (carries : Carries fields done output)
    (new : ∀ item ∈ items, ¬ done (key item)) :
    (items.foldlM write output).Holds Q E fun next =>
      Adds fields done (items.map key) output next ∧ ∀ item ∈ items, Good item next := by
  induction items generalizing output done with
  | nil => exact .pure ⟨.refl carries, by simp⟩
  | cons item rest ih =>
    obtain ⟨fresh, once⟩ := List.nodup_cons.mp once
    rw [List.foldlM_cons]
    have first := round item (by simp) done output carries (new item (by simp))
    refine .bind first fun next hnext => ?_
    obtain ⟨adds, good⟩ := hnext
    have later (other : α) (mem : other ∈ rest) :
        ¬ (done (key other) ∨ key other ∈ [key item]) := by
      rintro (hdone | same)
      · exact new other (by simp [mem]) hdone
      · rw [List.mem_singleton] at same
        exact fresh (by rw [← same]; exact List.mem_map_of_mem mem)
    refine (ih (fun other mem => round other (by simp [mem])) once adds.carries later).imp
      fun last hlast => ?_
    obtain ⟨adds', others⟩ := hlast
    refine ⟨adds.trans adds', fun other mem => ?_⟩
    rcases List.mem_cons.mp mem with rfl | mem
    · exact stable other next last good (adds'.untouched _ (.inr (by simp)))
    · exact others other mem

end Adds

end Entries

open Entries

namespace HashRules

theorem MeetsProperty.congr {output next : Entries Json} {entry : String × Node}
    {around : List Definitions} (h : MeetsProperty Again output entry around)
    (same : next.get? entry.1 = output.get? entry.1) : MeetsProperty Again next entry around where
  key required := by
    rw [Entries.contains, same]
    exact h.key required
  value := by
    rw [same]
    exact h.value

section Properties

variable {scope : Scope σ} {around : List Definitions} {fields output : Entries Json}
  {done : String → Prop}

theorem renews_castProperty {entry : String × Node} (named : entry.2.options.outputName = none)
    (carries : Carries fields done output) (new : ¬ done entry.1)
    (key : entry.2.options.requireKey → fields.contains entry.1)
    (renews : (castNode entry.2 (fields.valueAt entry.1) scope).Holds Q E
      (Place.Renews Again ⟨entry.2, around⟩ (fields.valueAt entry.1))) :
    (castProperty castNode fields scope output entry).Holds Q E fun next =>
      Adds fields done [entry.1] output next ∧ MeetsProperty Again next entry around := by
  refine .bind renews fun result hresult => ?_
  rw [named, Option.getD_none]
  by_cases known : fields.contains entry.1
  · rw [known, Bool.true_or, if_pos rfl]
    refine .pure ⟨carries.write new known hresult.missing, fun _ => ?_, ?_⟩
    · exact (contains_insert ..).mpr (.inl rfl)
    · simpa using hresult.satisfied
  · have null : fields.valueAt entry.1 = .null := valueAt_of_not_contains known
    have missing : result.isNull := by rw [hresult.missing, null]; rfl
    have unwritten : ¬ output.contains entry.1 := fun h => new ((carries.contains _).mp h).1
    have same : result = .null := by
      cases result with
      | null => rfl
      | _ => cases missing
    rw [Bool.eq_false_iff.mpr known, missing, Bool.not_true, Bool.or_false,
      if_neg Bool.false_ne_true]
    refine .pure ⟨carries.skip new known, fun required => absurd (key required) known, ?_⟩
    have written : output.valueAt entry.1 = result := by
      rw [same]
      exact valueAt_of_not_contains unwritten
    show Again _ (output.valueAt entry.1)
    rw [written]
    exact hresult.satisfied

theorem castProperties_eq_foldlM (entries : List (String × Node)) :
    castProperties castNode fields scope output entries =
      entries.foldlM (castProperty castNode fields scope) output := by
  induction entries generalizing output with
  | nil => rfl
  | cons entry rest ih =>
    rw [castProperties, List.foldlM_cons]
    exact congrArg _ (funext fun _ => ih)

theorem renews_castProperties {entries : List (String × Node)}
    (named : ∀ entry ∈ entries, entry.2.options.outputName = none)
    (once : (entries.map Prod.fst).Nodup) (carries : Carries fields done output)
    (new : ∀ entry ∈ entries, ¬ done entry.1)
    (met : ∀ entry ∈ entries, MeetsProperty Sat fields entry around)
    (renews : ∀ entry ∈ entries, ∀ value, Sat ⟨entry.2, around⟩ value →
      (castNode entry.2 value scope).Holds Q E (Place.Renews Again ⟨entry.2, around⟩ value)) :
    (castProperties castNode fields scope output entries).Holds Q E fun next =>
      Adds fields done (entries.map Prod.fst) output next ∧
        ∀ entry ∈ entries, MeetsProperty Again next entry around := by
  rw [castProperties_eq_foldlM]
  refine Adds.foldlM (fun _ _ _ => MeetsProperty.congr)
    (fun entry mem done output carries new => ?_) once carries new
  have due := met entry mem
  exact renews_castProperty (named entry mem) carries new due.key (renews entry mem _ due.value)

end Properties

/-- What can be relied on when the fields of a hash are cast: its includes lead to hashes, no
property is declared twice, and properties are written under their own names. -/
structure Regular (context : Context) (place : Place) (rules : HashRules) : Prop where
  once : (rules.properties.map Prod.fst).Nodup
  offers : ∀ name ∈ rules.includes, ∃ target properties,
    Offers context place name target properties ∧ (properties.map Prod.fst).Nodup
  named : ∀ target, place.Step context target → target.node.options.outputName = none

variable (renews : ∀ target, place.Step context target → ∀ value, Sat target value →
  (castNode target.node value (target.scope (.ofContext context))).Holds Q E
    (target.Renews Again value))

include renews in
theorem renews_castIncludes {rules : HashRules} (kind : place.node.kind = .hash rules)
    (regular : rules.Regular context place) {fields output : Entries Json}
    {earlier names taken : List String} (hnames : rules.includes = earlier ++ names)
    (htaken : ∀ key, ¬ rules.declares key → (key ∈ taken ↔ Offered context place earlier key))
    (carries : Carries fields (fun key => rules.declares key ∨ key ∈ taken) output)
    (met : MeetsIncludes context Sat place rules fields earlier names) :
    (castIncludes castNode rules fields ⟨.ofContext context, place.inner⟩ taken output names).Holds
      Q E fun found => ∃ more, found.2 = taken ++ more ∧
        Adds fields (fun key => rules.declares key ∨ key ∈ taken) more output found.1 ∧
        (∀ key, ¬ rules.declares key → (key ∈ found.2 ↔ Offered context place rules.includes key)) ∧
        MeetsIncludes context Again place rules found.1 earlier names := by
  induction names generalizing earlier taken output with
  | nil =>
    rw [List.append_nil] at hnames
    rw [hnames]
    exact .pure ⟨[], by simp, .refl carries, htaken, by simp [MeetsIncludes]⟩
  | cons name rest ih =>
    have listed : name ∈ rules.includes := by rw [hnames]; simp
    obtain ⟨target, properties, offers, once⟩ := regular.offers name listed
    obtain ⟨first, others⟩ := (meetsIncludes_cons offers).mp met
    obtain ⟨leads, targetRules, hash, rfl⟩ := id offers
    rw [castIncludes, includedBy_of_offers offers, pure_bind]
    generalize hfresh : (targetRules.properties.filter fun entry =>
      !rules.declares entry.1 && !taken.contains entry.1) = fresh
    have mem_fresh (entry : String × Node) : entry ∈ fresh ↔
        entry ∈ targetRules.properties ∧ ¬ rules.declares entry.1 ∧ entry.1 ∉ taken := by
      simp [← hfresh, List.mem_filter]
    have once : (fresh.map Prod.fst).Nodup := by
      rw [← hfresh]
      exact once.sublist (List.filter_sublist.map _)
    have steps (entry : String × Node) (mem : entry ∈ fresh) :
        place.Step context ⟨entry.2, target.inner⟩ :=
      .included kind listed leads hash ((mem_fresh entry).mp mem).1
    have new (entry : String × Node) (mem : entry ∈ fresh) :
        ¬ (rules.declares entry.1 ∨ entry.1 ∈ taken) := by
      obtain ⟨_, undeclared, untaken⟩ := (mem_fresh entry).mp mem
      rintro (declared | known)
      · exact undeclared declared
      · exact untaken known
    have due (entry : String × Node) (mem : entry ∈ fresh) :
        MeetsProperty Sat fields entry target.inner := by
      obtain ⟨mem, undeclared, untaken⟩ := (mem_fresh entry).mp mem
      exact first entry mem undeclared (by rwa [← htaken entry.1 undeclared])
    refine .bind (renews_castProperties (fun entry mem => regular.named _ (steps entry mem)) once
      carries new due fun entry mem => renews _ (steps entry mem)) fun next hnext => ?_
    obtain ⟨adds, written⟩ := hnext
    have htaken' := taken_append offers mem_fresh htaken
    have carries' : Carries fields
        (fun key => rules.declares key ∨ key ∈ taken ++ fresh.map Prod.fst) next :=
      adds.carries.congr fun key => by rw [List.mem_append, or_assoc]
    have hnames : rules.includes = (earlier ++ [name]) ++ rest := by rw [hnames, List.append_cons]
    refine (ih hnames htaken' carries' others).imp fun found hfound => ?_
    obtain ⟨more, hmore, adds', taken', rest⟩ := hfound
    have adds' : Adds fields (fun key => (rules.declares key ∨ key ∈ taken) ∨
        key ∈ fresh.map Prod.fst) more next found.1 :=
      adds'.congr fun key => by rw [List.mem_append, or_assoc]
    refine ⟨fresh.map Prod.fst ++ more, by rw [hmore, List.append_assoc], adds.trans adds', taken',
      (meetsIncludes_cons offers).mpr ⟨fun entry mem undeclared unoffered => ?_, rest⟩⟩
    have mem : entry ∈ fresh :=
      (mem_fresh entry).mpr ⟨mem, undeclared, by rwa [htaken entry.1 undeclared]⟩
    exact (written entry mem).congr (adds'.untouched _ (.inr (List.mem_map_of_mem mem)))

theorem castExtras_eq_foldlM {rules : HashRules} {scope : Scope σ} {output : Entries Json}
    (extras : Entries Json) :
    castExtras castNode rules scope output extras =
      extras.foldlM (castExtra castNode rules scope) output := by
  induction extras generalizing output with
  | nil => rfl
  | cons field rest ih =>
    rw [castExtras, List.foldlM_cons]
    exact congrArg _ (funext fun _ => ih)

include renews in
theorem renews_castExtra {rules : HashRules} (kind : place.node.kind = .hash rules)
    (ignored : rules.ignored = .none) {fields output : Entries Json} {done : String → Prop}
    {field : String × Json} (held : fields.get? field.1 = some field.2)
    (met : rules.MeetsExtra Sat place field) (carries : Carries fields done output)
    (new : ¬ done field.1) :
    (castExtra castNode rules ⟨.ofContext context, place.inner⟩ output field).Holds Q E fun next =>
      Adds fields done [field.1] output next ∧
        ∀ value, next.get? field.1 = some value →
          rules.MeetsExtra Again place (field.1, value) := by
  have known : fields.contains field.1 := by simp [Entries.contains, held]
  have unwritten : ¬ output.contains field.1 := fun h => new ((carries.contains _).mp h).1
  have written {result : Json} (missing : result.isNull = field.2.isNull)
      (again : rules.MeetsExtra Again place (field.1, result)) :
      Adds fields done [field.1] output (output.insertNew field.1 result) ∧
        ∀ value, (output.insertNew field.1 result).get? field.1 = some value →
          rules.MeetsExtra Again place (field.1, value) := by
    rw [insertNew_eq_insert unwritten]
    have same : result.isNull = (fields.valueAt field.1).isNull := by
      simpa [valueAt, held] using missing
    refine ⟨carries.write new known same, fun value hvalue => ?_⟩
    rw [get?_insert_self] at hvalue
    cases hvalue
    exact again
  unfold castExtra
  cases found : rules.patternFor? field.1 with
  | some node =>
    simp only [MeetsExtra, found] at met written
    have owned := place.node.mem_children_of_patternFor? kind found
    refine .bind (renews _ (.child owned) _ met) fun result hresult => .pure ?_
    simpa only [MeetsExtra, found] using written hresult.missing hresult.satisfied
  | none =>
    cases policy : rules.additional with
    | allow =>
      simp only [MeetsExtra, found, policy] at written
      refine .pure ?_
      simpa only [MeetsExtra, found, policy] using written rfl trivial
    | schema node =>
      simp only [MeetsExtra, found, policy] at met written
      have owned := place.node.mem_children_of_additional kind policy
      refine .bind (renews _ (.child owned) _ met) fun result hresult => .pure ?_
      simpa only [MeetsExtra, found, policy] using written hresult.missing hresult.satisfied
    | reject =>
      simp only [MeetsExtra, found, policy, ignored] at met
      cases met

include renews in
theorem renews_castExtras {rules : HashRules} (kind : place.node.kind = .hash rules)
    (ignored : rules.ignored = .none) {fields extras output : Entries Json} {done : String → Prop}
    (distinct : fields.keys.Nodup) (part : extras.Sublist fields)
    (met : ∀ field ∈ extras, rules.MeetsExtra Sat place field)
    (carries : Carries fields done output) (new : ∀ field ∈ extras, ¬ done field.1) :
    (castExtras castNode rules ⟨.ofContext context, place.inner⟩ output extras).Holds Q E
      fun next => Adds fields done extras.keys output next ∧ ∀ field ∈ extras, ∀ value,
        next.get? field.1 = some value → rules.MeetsExtra Again place (field.1, value) := by
  rw [castExtras_eq_foldlM]
  refine Adds.foldlM (fun field output next good same => by rwa [same])
    (fun field mem done output carries new => ?_) (distinct.sublist (part.map _)) carries new
  have held : fields.get? field.1 = some field.2 := get?_of_mem distinct (part.subset mem)
  exact renews_castExtra renews kind ignored held (met field mem) carries new

omit renews in
/-- An object with cast forms of all fields meets the rules of the hash again, if its values do. -/
theorem Meets.of_carries {rules : HashRules} {fields output : Entries Json} {done : String → Prop}
    (met : rules.Meets context Sat place fields) (carries : Carries fields done output)
    (all : ∀ key, fields.contains key → done key)
    (declared : ∀ entry ∈ rules.properties, MeetsProperty Again output entry place.inner)
    (included : ∀ entry target, rules.Includes context place entry target →
      MeetsProperty Again output entry target.inner)
    (extra : ∀ field ∈ output, rules.Extra context place field.1 →
      rules.MeetsExtra Again place field) : rules.Meets context Again place output := by
  have distinct : fields.keys.Nodup :=
    met.distinct.imp fun differ same => differ (congrArg foldKey same)
  have perm : output.keys.Perm fields.keys := carries.keys_perm distinct all
  have count : output.length = fields.length := by simpa [keys] using perm.length_eq
  refine ⟨?_, ?_, ?_, declared, included, extra, fun field mem => ?_, fun entry mem => ?_⟩
  · exact (perm.pairwise_iff fun differ => differ.symm).mpr met.distinct
  · rw [count]
    exact met.minProperties
  · rw [count]
    exact met.maxProperties
  · have known : field.1 ∈ fields.keys := perm.subset (List.mem_map_of_mem mem)
    obtain ⟨origin, horigin, same⟩ := List.mem_map.mp known
    rw [← same]
    exact met.names origin horigin
  · simp only [carries.isGiven_eq all]
    exact met.dependencies entry mem

omit renews in
/-- If the declared properties, the included ones and the extras are written one after the other,
and each value satisfies again what it had to satisfy, then the object meets the rules of the hash
again. -/
theorem Meets.of_written {rules : HashRules} {fields output next last : Entries Json}
    {taken : List String} (met : rules.Meets context Sat place fields)
    (htaken : ∀ key, ¬ rules.declares key →
      (key ∈ taken ↔ Offered context place rules.includes key))
    (declared : ∀ entry ∈ rules.properties, MeetsProperty Again output entry place.inner)
    (addsIncluded : Adds fields (rules.declares ·) taken output next)
    (included : MeetsIncludes context Again place rules next [] rules.includes)
    (addsExtra : Adds fields (fun key => rules.declares key ∨ key ∈ taken)
      (rules.extras taken fields).keys next last)
    (extra : ∀ field ∈ rules.extras taken fields, ∀ value, last.get? field.1 = some value →
      rules.MeetsExtra Again place (field.1, value)) :
    rules.Meets context Again place last := by
  refine met.of_carries addsExtra.carries (fun key known => ?_) (fun entry mem => ?_)
    (fun entry target includes => ?_) fun field mem extraKey => ?_
  · obtain ⟨field, mem, rfl⟩ := List.mem_map.mp (contains_iff.mp known)
    by_cases declared : rules.declares field.1
    · exact .inl (.inl declared)
    · by_cases offered : Offered context place rules.includes field.1
      · exact .inl (.inr ((htaken field.1 declared).mpr offered))
      · exact .inr (List.mem_map_of_mem ((mem_extras htaken field).mpr ⟨mem, declared, offered⟩))
  · have known : rules.declares entry.1 := contains_iff.mpr (List.mem_map_of_mem mem)
    refine (declared entry mem).congr ?_
    rw [addsExtra.untouched _ (.inl known), addsIncluded.untouched _ known]
  · obtain ⟨earlier, name, later, properties, hnames, offers, mem, undeclared, first⟩ := id includes
    have offered : Offered context place rules.includes entry.1 :=
      ⟨name, by simp [hnames], target, properties, offers, List.mem_map_of_mem mem⟩
    exact (meetsIncludes_iff.mp included entry target includes).congr
      (addsExtra.untouched _ (.inr ((htaken entry.1 undeclared).mpr offered)))
  · have known : last.contains field.1 := contains_iff.mpr (List.mem_map_of_mem mem)
    have given := contains_iff.mp ((addsExtra.carries.contains field.1).mp known).2
    obtain ⟨origin, horigin, same⟩ := List.mem_map.mp given
    have due : origin ∈ rules.extras taken fields :=
      (mem_extras htaken origin).mpr ⟨horigin, by rwa [same]⟩
    have written : last.get? field.1 = some field.2 := get?_of_mem addsExtra.carries.once mem
    rw [← same] at written
    have again := extra origin due field.2 written
    rwa [same] at again

include renews in
/-- A value that meets the rules of a hash is cast to one that meets them again. -/
theorem renews_cast {rules : HashRules} (kind : place.node.kind = .hash rules)
    (ignored : rules.ignored = .none) (regular : rules.Regular context place)
    {fields : Entries Json} (met : rules.Meets context Sat place fields) :
    (rules.cast castNode fields ⟨.ofContext context, place.inner⟩).Holds Q E fun output =>
      ∃ fields', output = .obj fields' ∧ rules.Meets context Again place fields' := by
  have distinct : fields.keys.Nodup :=
    met.distinct.imp fun differ same => differ (congrArg foldKey same)
  have owned (entry : String × Node) (mem : entry ∈ rules.properties) :
      place.Step context ⟨entry.2, place.inner⟩ :=
    .child (place.node.mem_children_of_property kind mem)
  refine .bind (renews_castProperties (fun entry mem => regular.named _ (owned entry mem))
    regular.once (.nil fields fun key => id) (fun _ _ => id) met.declared
    fun entry mem => renews _ (owned entry mem)) fun output houtput => ?_
  obtain ⟨addsDeclared, declared⟩ := houtput
  have declares (key : String) : (rules.declares key ∨ key ∈ []) ↔ rules.declares key :=
    or_iff_left List.not_mem_nil
  have carries : Carries fields (fun key => rules.declares key ∨ key ∈ []) output :=
    addsDeclared.carries.congr fun key => by
      rw [declares, false_or]
      exact contains_iff.symm
  have start : rules.includes = [] ++ rules.includes := rfl
  refine .bind (renews_castIncludes renews kind regular start (by simp [Offered]) carries
    (meetsIncludes_iff.mpr met.included)) fun found hfound => ?_
  obtain ⟨next, taken⟩ := found
  obtain ⟨_, rfl, addsIncluded, htaken, included⟩ := hfound
  have addsIncluded := addsIncluded.congr declares
  have isExtra (field : String × Json) : field ∈ rules.extras taken fields ↔
      field ∈ fields ∧ rules.Extra context place field.1 := mem_extras htaken field
  refine .bind (renews_castExtras renews kind ignored distinct List.filter_sublist
    (fun field mem => met.extra field ((isExtra field).mp mem).1 ((isExtra field).mp mem).2)
    addsIncluded.carries fun field mem => ?_) fun last hlast => ?_
  · obtain ⟨_, undeclared, unoffered⟩ := (isExtra field).mp mem
    rw [not_or]
    exact ⟨undeclared, fun known => unoffered ((htaken _ undeclared).mp known)⟩
  · obtain ⟨addsExtra, extra⟩ := hlast
    exact .pure ⟨last, rfl, met.of_written htaken declared addsIncluded included addsExtra extra⟩

end HashRules

end SchemaCast
