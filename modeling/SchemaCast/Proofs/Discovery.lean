import Mathlib.Data.List.Perm.Subperm
import SchemaCast.Proofs.ExternalNames

/-!
# Which names are discovered, and in which order

The names that a schema leaves to the resolver are those that are written in it, those that are
written in the schemas of these names, and so on. `Needed` is the least set with this property.
A list `Discovered` holds the set without repetition, in the order in which the names come up if
the schema is read first and then the schemas of the names, in the order of the list itself. There
is just one such list, and the search for external names finds it, unless the context lacks one of
the names: then the first one that it lacks is reported.
-/
namespace SchemaCast

variable {σ : Type}

namespace Place

/-- The names that are used inside a place and that no definitions around their uses declare, as
often as they are written: those of the node first, then those in its definitions, then those in its
children. -/
def externalUses (place : Place) : List String :=
  place.node.kind.referenced.filter (fun name => (lookupLocal name place.inner).isNone) ++
    (place.node.definitions.attach.flatMap fun ⟨entry, _⟩ =>
      externalUses ⟨entry.2, place.inner⟩) ++
    place.node.children.attach.flatMap fun ⟨child, _⟩ => externalUses ⟨child, place.inner⟩
termination_by place.node.size
decreasing_by
  · exact Node.size_lt_of_definition ‹_›
  · exact Node.size_lt_of_child ‹_›

theorem externalUses_eq (place : Place) :
    place.externalUses =
      place.node.kind.referenced.filter (fun name => (lookupLocal name place.inner).isNone) ++
        (place.node.definitions.flatMap fun entry => externalUses ⟨entry.2, place.inner⟩) ++
        place.node.children.flatMap fun child => externalUses ⟨child, place.inner⟩ := by
  rw [externalUses, List.flatMap_subtype fun _ _ => rfl, List.flatMap_subtype fun _ _ => rfl,
    List.unattach_attach, List.unattach_attach]

theorem mem_externalUses {place : Place} {name : String} :
    name ∈ place.externalUses ↔ ∃ used, place.Within used ∧ used.NeedsExternal name := by
  obtain ⟨node, outer⟩ := place
  induction node using Node.owned_induction generalizing outer with
  | step node children definitions =>
    rw [externalUses_eq, exists_within_iff, List.mem_append, List.mem_append, List.mem_flatMap,
      List.mem_flatMap, or_assoc]
    refine or_congr ?_ (or_congr ?_ ?_)
    · simp [NeedsExternal, List.mem_filter]
    · exact exists_congr fun entry => and_congr_right fun mem => definitions entry mem _
    · exact exists_congr fun child => and_congr_right fun mem => children child mem _

end Place

/-- The names that are used inside the schema of a name; a name without a schema uses none. -/
def Context.uses (context : Context) (name : String) : List String :=
  ((context.get? name).map fun schema => schema.place.externalUses).getD []

/-- A name that is written in a schema, or in the schema of such a name, and that no definitions
around it declare. -/
inductive Needed (context : Context) (root : Node) : String → Prop where
  | written {used : Place} {name : String} (within : root.place.Within used)
      (needs : used.NeedsExternal name) : Needed context root name
  | followed {name needed : String} {schema : Node} {used : Place}
      (before : Needed context root name) (found : context.get? name = some schema)
      (within : schema.place.Within used) (needs : used.NeedsExternal needed) :
      Needed context root needed

theorem Context.mem_uses {context : Context} {name needed : String} :
    needed ∈ context.uses name ↔ ∃ schema, context.get? name = some schema ∧
      ∃ used, schema.place.Within used ∧ used.NeedsExternal needed := by
  unfold uses
  cases context.get? name <;> simp [Place.mem_externalUses]

theorem Needed.of_mem_uses {context : Context} {root : Node} {name needed : String}
    (h : Needed context root name) (mem : needed ∈ context.uses name) :
    Needed context root needed := by
  obtain ⟨schema, found, used, within, needs⟩ := Context.mem_uses.mp mem
  exact h.followed found within needs

/-- A list holds the needed names once each, in the order in which they are discovered. -/
structure Discovered (context : Context) (root : Node) (names : List String) : Prop where
  mem_iff (name : String) : name ∈ names ↔ Needed context root name
  once : names.Nodup
  /-- The schema is read first, and then the schemas of the names, one after the other. -/
  order : names = (root.place.externalUses ++ names.flatMap context.uses).eraseDups

namespace External

theorem foldl_addName (items names : List String) :
    items.foldl addName names = names ++ (items.removeAll names).eraseDups := by
  induction items generalizing names with
  | nil => simp [List.removeAll]
  | cons item rest ih =>
    rw [List.foldl_cons, ih, addName, List.removeAll, List.removeAll, List.filter_cons]
    split
    · next known =>
      rw [if_neg (by simpa using known)]
    · next unknown =>
      rw [if_pos (by simpa using unknown), List.eraseDups_cons, List.filter_filter,
        List.append_assoc, List.singleton_append]
      congr 3
      refine List.filter_congr fun other _ => ?_
      by_cases same : other = item <;> simp [same]

theorem eraseDups_eq_foldl (items : List String) : items.eraseDups = items.foldl addName [] := by
  have all : items.removeAll [] = items := List.filter_eq_self.mpr fun _ _ => rfl
  rw [foldl_addName, all, List.nil_append]

theorem nodup_foldl_addName {names : List String} (items : List String) (once : names.Nodup) :
    (items.foldl addName names).Nodup := by
  refine List.foldlRecOn items addName once fun built once item _ => ?_
  unfold addName
  split
  · exact once
  · next unknown =>
    have other : ∀ name ∈ built, name ≠ item := fun name mem same => by simp_all
    simpa [List.nodup_append] using ⟨once, other⟩

/-- The walk adds the names that are used, one after the other. -/
theorem collect_eq_foldl (node : Node) (outer : List Definitions) (names : List String) :
    collect outer names node = (⟨node, outer⟩ : Place).externalUses.foldl addName names := by
  induction node using Node.owned_induction generalizing outer names with
  | step node children definitions =>
    rw [collect_eq ⟨node, outer⟩ names, Place.externalUses_eq, List.foldl_append,
      List.foldl_append, List.foldl_flatMap, List.foldl_flatMap]
    have own : addExternal (⟨node, outer⟩ : Place).inner names node.kind.referenced =
        (node.kind.referenced.filter fun name =>
          (lookupLocal name (⟨node, outer⟩ : Place).inner).isNone).foldl addName names := by
      simp only [addExternal, isLocal_eq, Option.not_isSome]
    have declared (names : List String) :=
      List.foldl_ext _ _ names fun built entry mem =>
        definitions entry mem (⟨node, outer⟩ : Place).inner built
    have owned (names : List String) :=
      List.foldl_ext _ _ names fun built child mem =>
        children child mem (⟨node, outer⟩ : Place).inner built
    rw [own, declared, owned]

end External

/-! ### The search under way -/

/-- The names found so far, when the schemas of the names before a position have been read. -/
structure Underway (context : Context) (root : Node) (names : List String) (next : Nat) :
    Prop where
  found : names = (root.place.externalUses ++
    (names.take next).flatMap context.uses).foldl External.addName []
  needed : ∀ name ∈ names, Needed context root name
  inside : next ≤ names.length

namespace Underway

variable {context : Context} {root : Node} {names all : List String} {next : Nat}

theorem once (h : Underway context root names next) : names.Nodup := by
  rw [h.found]
  exact External.nodup_foldl_addName _ .nil

theorem start : Underway context root (root.place.externalUses.foldl External.addName []) 0 where
  found := by simp
  needed name mem := by
    rw [← External.eraseDups_eq_foldl, List.mem_eraseDups, Place.mem_externalUses] at mem
    obtain ⟨used, within, needs⟩ := mem
    exact .written within needs
  inside := Nat.zero_le _

/-- Reading the schema of the next name. -/
theorem step (h : Underway context root names next) {name : String}
    (now : names[next]? = some name) :
    Underway context root ((context.uses name).foldl External.addName names) (next + 1) := by
  have before : names <+: (context.uses name).foldl External.addName names :=
    External.prefix_foldl _ names fun added _ built => External.prefix_addName built added
  have read := External.take_of_isPrefix before now
  refine ⟨?_, fun other mem => ?_, ?_⟩
  · rw [read, List.flatMap_append, List.flatMap_singleton, ← List.append_assoc, List.foldl_append,
      ← h.found]
  · rw [External.mem_foldl (R := (other = ·)) _ _ fun _ _ _ => External.mem_addName] at mem
    rcases mem with mem | ⟨_, mem, rfl⟩
    · exact h.needed other mem
    · exact (h.needed name (List.mem_of_getElem? now)).of_mem_uses mem
  · exact Nat.le_trans (List.getElem?_eq_some_iff.mp now).1 before.length_le

/-- When all schemas have been read, nothing is left to be found. -/
theorem finish (h : Underway context root names next) (done : names.length ≤ next) :
    Discovered context root names := by
  have found := h.found
  rw [List.take_of_length_le done, ← External.eraseDups_eq_foldl] at found
  refine ⟨fun name => ⟨h.needed name, fun needed => ?_⟩, h.once, found⟩
  induction needed with
  | written within needs =>
    rw [found, List.mem_eraseDups, List.mem_append, Place.mem_externalUses]
    exact .inl ⟨_, within, needs⟩
  | followed _ given within needs mem =>
    rw [found, List.mem_eraseDups, List.mem_append, List.mem_flatMap]
    exact .inr ⟨_, mem, Context.mem_uses.mpr ⟨_, given, _, within, needs⟩⟩

/-- There are only so many names to be found. -/
theorem length_le (h : Underway context root names next) : names.length ≤
    (root.place.externalUses ++
      context.flatMap fun entry => entry.2.place.externalUses).length := by
  refine (List.subperm_of_subset h.once fun name mem => ?_).length_le
  rw [h.found, ← External.eraseDups_eq_foldl, List.mem_eraseDups, List.mem_append] at mem
  rw [List.mem_append]
  refine mem.imp_right fun mem => ?_
  obtain ⟨read, -, mem⟩ := List.mem_flatMap.mp mem
  obtain ⟨schema, given, used⟩ := Context.mem_uses.mp mem
  exact List.mem_flatMap.mpr ⟨_, Entries.mem_of_get? given, Place.mem_externalUses.mpr used⟩

/-- What has been found is at the front of every list of the discovered names that begins with
the names that have been read. -/
theorem isPrefix_of_discovered (h : Underway context root names next)
    (discovered : Discovered context root all) (read : names.take next <+: all) :
    names <+: all := by
  have same : names.take next = all.take next := by
    simpa only [List.length_take_of_le h.inside] using List.prefix_iff_eq_take.mp read
  have split : all.flatMap context.uses =
      (names.take next).flatMap context.uses ++ (all.drop next).flatMap context.uses := by
    rw [same, ← List.flatMap_append, List.take_append_drop]
  rw [discovered.order, split, ← List.append_assoc, External.eraseDups_eq_foldl,
    List.foldl_append, ← h.found]
  exact External.prefix_foldl _ names fun added _ built => External.prefix_addName built added

/-- No more names can have been read than the context has schemas for. -/
theorem next_le (h : Underway context root names next)
    (provided : ∀ name ∈ names.take next, (context.get? name).isSome) :
    next ≤ context.length := by
  have once : (names.take next).Nodup := h.once.sublist (List.take_sublist _ _)
  have known : names.take next ⊆ Entries.keys context := fun name mem =>
    Entries.contains_iff.mp (provided name mem)
  have bound := (List.subperm_of_subset once known).length_le
  rwa [List.length_take_of_le h.inside, Entries.keys, List.length_map] at bound

/-- Every search comes to an end, with what is at the front of all lists of the discovered names. -/
theorem exists_discovered {names : List String} {next : Nat}
    (h : Underway context root names next) :
    ∃ all, names <+: all ∧ Discovered context root all ∧
      ∀ others, Discovered context root others → names.take next <+: others → all <+: others := by
  cases now : names[next]? with
  | none =>
    have done := List.getElem?_eq_none_iff.mp now
    exact ⟨names, List.prefix_refl names, h.finish done,
      fun others discovered read => h.isPrefix_of_discovered discovered read⟩
  | some name =>
    obtain ⟨all, before, discovered, first⟩ := (h.step now).exists_discovered
    have longer : names <+: (context.uses name).foldl External.addName names :=
      External.prefix_foldl _ names fun added _ built => External.prefix_addName built added
    refine ⟨all, longer.trans before, discovered, fun others others_discovered read => ?_⟩
    refine first others others_discovered ?_
    have ahead := h.isPrefix_of_discovered others_discovered read
    rw [External.take_of_isPrefix longer now, ← External.take_of_isPrefix ahead now]
    exact List.take_prefix _ _
termination_by (root.place.externalUses ++
  context.flatMap fun entry => entry.2.place.externalUses).length - next
decreasing_by
  have := h.length_le
  have := (List.getElem?_eq_some_iff.mp now).1
  omega

end Underway

/-- The needed names have one order of discovery. -/
theorem exists_discovered (context : Context) (root : Node) : ∃ names,
    Discovered context root names ∧
      ∀ others, Discovered context root others → others = names := by
  obtain ⟨names, -, discovered, first⟩ :=
    (Underway.start : Underway context root _ 0).exists_discovered
  refine ⟨names, discovered, fun others h => ?_⟩
  have same : names.Perm others := (List.perm_ext_iff_of_nodup discovered.once h.once).mpr
    fun name => (discovered.mem_iff name).trans (h.mem_iff name).symm
  exact ((first others h (List.nil_prefix)).eq_of_length same.length_eq).symm

/-- The first name that has no schema. -/
def Context.missing? (context : Context) (names : List String) : Option String :=
  names.find? fun name => (context.get? name).isNone

theorem Context.missing?_eq_none {context : Context} {names : List String}
    (provided : ∀ name ∈ names, (context.get? name).isSome) : context.missing? names = none :=
  List.find?_eq_none.mpr fun name mem => by
    simpa using Option.isSome_iff_ne_none.mp (provided name mem)

namespace External

/-- The search comes up with the discovered names, or with the first one that the context lacks. -/
theorem follow_eq {context : Context} {root : Node} {all : List String}
    (discovered : Discovered context root all)
    (first : ∀ others, Discovered context root others → others = all) (rounds : Nat)
    {names : List String} {next : Nat} (h : Underway context root names next)
    (provided : ∀ name ∈ names.take next, (context.get? name).isSome)
    (enough : context.length < rounds + next) (s : σ) :
    follow (.ofContext context) rounds names next s =
      (match context.missing? all with
        | none => .ok all
        | some missing => .error (.schema (.unresolvedReference missing)), s) := by
  induction rounds generalizing names next with
  | zero => exact absurd (h.next_le provided) (by omega)
  | succ rounds ih =>
    rw [follow]
    cases now : names[next]? with
    | none =>
      have done := List.getElem?_eq_none_iff.mp now
      obtain rfl := first names (h.finish done)
      rw [List.take_of_length_le done] at provided
      rw [Context.missing?_eq_none provided]
      rfl
    | some name =>
      simp only [Resolver.external_ofContext, pure_bind]
      cases found : context.get? name with
      | none =>
        have front : all.take (next + 1) = names.take next ++ [name] := by
          obtain ⟨others, before, complete, -⟩ := h.exists_discovered
          exact take_of_isPrefix (first others complete ▸ before) now
        have missing : context.missing? all = some name := by
          rw [← List.take_append_drop (next + 1) all, front, Context.missing?, List.append_assoc,
            List.find?_append, ← Context.missing?, Context.missing?_eq_none provided]
          simp [found]
        rw [missing]
        rfl
      | some schema =>
        have uses : collect [] names schema = (context.uses name).foldl addName names := by
          rw [collect_eq_foldl, Context.uses, found]
          rfl
        have further := h.step now
        rw [← uses] at further
        refine ih further ?_ (by omega)
        rw [take_of_isPrefix (prefix_collect schema [] names) now]
        simpa [found, or_imp, forall_and] using provided

end External

namespace Node

theorem size_pos (node : Node) : 0 < node.size := by
  rw [node.size_eq]
  exact Nat.succ_pos _

theorem length_le_sizeNamed (context : Context) :
    context.length ≤ Schema.sizeNamed context := by
  induction context with
  | nil => exact Nat.le_refl 0
  | cons entry rest ih =>
    have := entry.2.size_pos
    simp only [Schema.sizeNamed, List.length_cons]
    omega

/-- There is just one list of the needed names in the order of discovery, and the search for
external names ends with it; or, if the context lacks some of them, with the first one that it
lacks. -/
theorem externalNames_exact (node : Node) (context : Context) :
    ∃ names, Discovered context node names ∧
      (∀ others, Discovered context node others → others = names) ∧
      ∀ s : σ, node.externalNames (.ofContext context) s =
        (match context.missing? names with
          | none => .ok names
          | some missing => .error (.schema (.unresolvedReference missing)), s) := by
  obtain ⟨names, discovered, unique⟩ := exists_discovered context node
  refine ⟨names, discovered, unique, fun s => ?_⟩
  have start := (Underway.start : Underway context node _ 0)
  rw [Node.place, ← External.collect_eq_foldl node [] []] at start
  refine External.follow_eq discovered unique _ start (by simp) ?_ s
  have size := length_le_sizeNamed context
  simp only [Resolver.ofContext, Resolver.withContext]
  omega

end Node

end SchemaCast
