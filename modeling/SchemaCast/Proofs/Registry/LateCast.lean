import SchemaCast.Outcome
import SchemaCast.Proofs.Recording
import SchemaCast.Proofs.Registry.Atomicity
import SchemaCast.Proofs.Registry.Files

/-!
# Casts that come late

The cast form of a valid value is computed when it is first asked for, and the names that the cast
meets are looked up again then. Files that have changed since the validation can thus change the
cast form. They cannot do so as long as every name that an immediate cast would have asked for is
still answered as it was: a look-up never changes what another look-up of the same files finds, so
that the late cast takes the course of the immediate one.
-/
namespace SchemaCast

namespace Registry

variable {registry : Registry} {files : FileTree} {name : String}

/-! ### One answer for each name -/

/-- A look-up depends on where is searched, and on what is kept under the name. -/
theorem schemaOf_lookup_congr {other : Registry} (lazy : registry.phase ≠ .eagerLoaded)
    (lazy' : other.phase ≠ .eagerLoaded) (roots : other.roots = registry.roots)
    (extensions : other.extensions = registry.extensions)
    (kept : other.schemas.get? name = registry.schemas.get? name) :
    schemaOf (other.lookup files name).1 = schemaOf (registry.lookup files name).1 := by
  have providers : other.providers files name = registry.providers files name := by
    rw [Registry.providers, roots, extensions]
    rfl
  have load (path : String) (file : File) :
      schemaOf (other.load name path file).1 = schemaOf (registry.load name path file).1 := by
    have current : other.current? name path file.modified =
        registry.current? name path file.modified := by rw [current?, kept, ← current?]
    unfold Registry.load
    rw [current]
    cases registry.current? name path file.modified with
    | some loaded => rfl
    | none => cases readSchema path file <;> rfl
  unfold lookup
  rw [if_neg lazy, if_neg lazy', providers]
  split
  · rfl
  · split
    · rfl
    · exact load _ _
    · rfl

/-- Files that do not provide a name make no difference to its look-up. -/
theorem lookup_of_providers {later : FileTree}
    (same : registry.providers later name = registry.providers files name) :
    registry.lookup later name = registry.lookup files name := by
  rw [lookup, lookup, same]

theorem Finds.lazy {outcome : Except SchemaError (Option Loaded) × Registry}
    (h : registry.Finds files name outcome) (lazy : registry.phase ≠ .eagerLoaded) :
    outcome.2.phase ≠ .eagerLoaded := by
  cases h with
  | read => exact fun final => by cases final
  | _ => exact lazy

/-- A name that has been looked up gets the same answer again. -/
theorem Finds.schemaOf_again {outcome : Except SchemaError (Option Loaded) × Registry}
    (h : registry.Finds files name outcome) (lazy : registry.phase ≠ .eagerLoaded)
    (looked : registry.lookup files name = outcome) :
    schemaOf (outcome.2.lookup files name).1 = schemaOf outcome.1 := by
  cases h with
  | missing named provided =>
    have provided : (registry.forget name).providers files name = [] := provided
    rw [lookup, if_neg (show (registry.forget name).phase ≠ .eagerLoaded from lazy), provided]
    simp [named]
  | @read named path file node provided _ _ =>
    let next := (registry.keep name node path file.modified).2
    have provided : next.providers files name = [(path, file)] := provided
    have current : next.current? name path file.modified =
        some (registry.keep name node path file.modified).1 := by
      simp [next, current?, keep]
    have lazy : next.phase ≠ .eagerLoaded := fun final => by cases final
    change schemaOf (next.lookup files name).1 = _
    rw [lookup, if_neg lazy, provided]
    simp [named, load, current]
  | _ => rw [looked]

/-- A look-up changes no answer of another one. -/
theorem schemaOf_lookup_lookup (registry : Registry) (files : FileTree) (name other : String) :
    schemaOf ((registry.lookup files other).2.lookup files name).1 =
      schemaOf (registry.lookup files name).1 := by
  by_cases final : registry.phase = .eagerLoaded
  · rw [lookup_of_final final files other]
  · have found : registry.Finds files other (registry.lookup files other) := lookup_finds final
    by_cases same : name = other
    · subst same
      exact found.schemaOf_again final rfl
    · obtain ⟨roots, extensions⟩ := found.search_eq
      exact schemaOf_lookup_congr final (found.lazy final) roots extensions
        (found.get?_of_ne same)

theorem external_resolver (registry : Registry) (files : FileTree) (name : String)
    (state : Registry) :
    ((registry.resolver files).external name state).1 =
        (schemaOf (state.lookup files name).1).mapError .schema ∧
      ((registry.resolver files).external name state).2 = (state.lookup files name).2 := by
  simp only [resolver]
  cases (state.lookup files name).1 <;> exact ⟨rfl, rfl⟩

/-- As long as files do not change, a registry gives each name one answer. -/
theorem answers_resolver (registry now : Registry) (files : FileTree) :
    (registry.resolver files).Answers
      (fun state => ∀ name, schemaOf (state.lookup files name).1 =
        schemaOf (now.lookup files name).1)
      fun name => schemaOf (now.lookup files name).1 := by
  intro name state h
  obtain ⟨result, next⟩ := registry.external_resolver files name state
  rw [result, next]
  refine ⟨by rw [h name], fun other => ?_⟩
  rw [schemaOf_lookup_lookup]
  exact h other

/-! ### Finitely many schemas -/

/-- A file can be read as one of two languages. -/
theorem exists_readings (file : File) :
    ∃ schemas : List Node, ∀ path node, readSchema path file = .ok node → node ∈ schemas := by
  cases read : file.text? with
  | none =>
    refine ⟨[], fun path node h => ?_⟩
    rw [readSchema, read] at h
    cases h
  | some text =>
    let reading (value : Option Json) : List Node :=
      (value.bind fun value => (Node.ofJson value).toOption).toList
    refine ⟨reading (Json.parse? text) ++ reading (Yaml.parse? text), fun path node h => ?_⟩
    have mem : node ∈ reading (declaration? path text) := by
      rw [readSchema, read] at h
      cases value : declaration? path text with
      | none => simp [value] at h
      | some value' =>
        simp only [value] at h
        simp [reading, h, Except.toOption]
    rw [declaration?] at mem
    split at mem
    · exact List.mem_append_left _ mem
    · exact List.mem_append_right _ mem

/-- What look-ups can find are the schemas that are kept and those in the files. -/
theorem exists_schemas (registry : Registry) (files : FileTree) :
    ∃ schemas : List Node, ∀ name node,
      schemaOf (registry.lookup files name).1 = .ok (some node) → node ∈ schemas := by
  choose readings hreadings using exists_readings
  let kept := registry.schemas.map fun entry => entry.2.node
  refine ⟨kept ++ files.files.flatMap fun entry => readings entry.2, fun name node h => ?_⟩
  have of_kept {loaded : Loaded} (found : registry.schemas.get? name = some loaded) :
      loaded.node ∈ kept := List.mem_map.mpr ⟨_, Entries.mem_of_get? found, rfl⟩
  refine List.mem_append.mpr ?_
  by_cases final : registry.phase = .eagerLoaded
  · rw [lookup_of_final final] at h
    cases found : registry.schemas.get? name with
    | none => rw [found] at h; cases h
    | some loaded =>
      rw [found] at h
      cases h
      exact .inl (of_kept found)
  · have found : registry.Finds files name (registry.lookup files name) := lookup_finds final
    generalize registry.lookup files name = outcome at found h
    cases found with
    | kept named provided current =>
      cases h
      exact .inl (of_kept (Option.filter_eq_some_iff.mp current).1)
    | @read named path file _ provided _ read =>
      cases h
      have mem : (path, file) ∈ registry.providers files name := by simp [provided]
      obtain ⟨location, _, there⟩ := FileTree.exists_of_fileAt? (fileAt?_of_mem_providers mem)
      exact .inr (List.mem_flatMap.mpr ⟨_, there, hreadings _ path _ read⟩)
    | _ => cases h

end Registry

/-! ### Demands -/

/-- The names that the cast of a value asks a resolver for, in this order. -/
def Node.castQuestions {σ : Type} (node : Node) (resolver : Resolver σ) (value : Json) (s : σ) :
    List String :=
  (node.cast resolver.recording value (s, [])).2.2

theorem Node.depthBound_le {σ τ : Type} {resolver : Resolver σ} {resolver' : Resolver τ}
    (node : Node) (value : Json) (h : resolver.size ≤ resolver'.size) :
    node.depthBound resolver value ≤ node.depthBound resolver' value :=
  Nat.mul_le_mul (by omega) (by omega)

theorem Json.eq_int_of_beq {value : Json} {n : Int} (h : value == .int n) : value = .int n := by
  cases value with
  | int m => exact congrArg _ (of_decide_eq_true h)
  | _ => cases h

theorem Json.eq_str_of_beq {value : Json} {s : String} (h : value == .str s) : value = .str s := by
  cases value with
  | str t => exact congrArg _ (of_decide_eq_true h)
  | _ => cases h

namespace Outcome

open Registry

variable {σ : Type}

theorem exists_log_of_examine {node : Node} {resolver : Resolver σ} {value : Json} {s s' : σ}
    {outcome : Outcome} (examined : node.examine resolver value s = (.ok outcome, s')) :
    ∃ log, outcome = { schema := node, value, log } := by
  obtain ⟨log, _, _, made⟩ := Run.bind_eq_ok examined
  cases made
  exact ⟨log, rfl⟩

/-- What is first demanded is the cast form of the value. -/
theorem demand_eq_cast {outcome : Outcome} (valid : outcome.isValid) (first : outcome.data = none)
    (resolver : Resolver σ) (s : σ) :
    (outcome.demand resolver s).1 =
      (outcome.schema.cast resolver outcome.value s).1.map fun data =>
        (some data, { outcome with data := some data }) := by
  unfold demand
  rw [if_pos valid, first]
  rcases cast : outcome.schema.cast resolver outcome.value s with ⟨fault | data, s'⟩
  · exact congrArg Prod.fst (Run.bind_error cast)
  · exact congrArg Prod.fst (Run.bind_ok cast)

/-- Files may change between a validation and the first demand for the cast form. If each name that
an immediate cast asks for is still answered as it was, then the demand is answered as it would have
been at once. -/
theorem demand_late {registry now : Registry} {files : FileTree} {node : Node} {value : Json}
    {outcome : Outcome}
    (examined : node.examine (registry.resolver files) value registry = (.ok outcome, now))
    (valid : outcome.isValid)
    (ended : (outcome.demand (registry.resolver files) now).1 ≠ .error .exhausted)
    (later : FileTree)
    (unchanged : ∀ name ∈ node.castQuestions (registry.resolver files) value now,
      schemaOf (now.lookup later name).1 = schemaOf (now.lookup files name).1)
    {size : Nat} (enough : (registry.resolver files).size ≤ size) :
    (outcome.demand { now.resolver later with size } now).1 =
      (outcome.demand (registry.resolver files) now).1 := by
  obtain ⟨log, rfl⟩ := exists_log_of_examine examined
  obtain ⟨schemas, few⟩ := exists_schemas now files
  rw [demand_eq_cast valid rfl, demand_eq_cast valid rfl] at *
  have uncut : (node.cast (registry.resolver files) value now).1 ≠ .error .exhausted :=
    fun cut => ended (by rw [cut]; rfl)
  let resolver : Resolver Registry := { now.resolver later with size }
  have deeper : node.depthBound (registry.resolver files) value ≤ node.depthBound resolver value :=
    node.depthBound_le value enough
  have steady : resolver.Answers _ fun name => schemaOf (now.lookup later name).1 :=
    now.answers_resolver now later
  have same := cast_of_recorded (registry.answers_resolver now files) steady few _ value
    (fun _ => rfl) node (fun _ => rfl) deeper unchanged uncut
  exact congrArg _ same

/-- Two properties with schemas in files, of which the value has only the first one. The file of the
other one is lost before the cast form is demanded. -/
theorem demand_late_lost :
    let size : Location × File :=
      (["lib", "size.json"],
        { contents := "\x7b\"type\": \"integer\", \"cast_str\": true\x7d".toUTF8, modified := 1 })
    let unit : Location × File :=
      (["lib", "unit.json"], { contents := "\"string\"".toUTF8, modified := 1 })
    let files : FileTree := { files := [size, unit], directories := [["lib"]] }
    let later : FileTree := { files := [size], directories := [["lib"]] }
    let registry := ofRoots ["lib"] ["json"]
    let node : Node :=
      ⟨{}, .hash
        { properties := [("size", ⟨{}, .reference "size"⟩), ("unit", ⟨{}, .reference "unit"⟩)] }⟩
    let value : Json := .obj [("size", .str "5")]
    ∃ outcome now, node.examine (registry.resolver files) value registry = (.ok outcome, now) ∧
      outcome.isValid ∧
      (outcome.demand (registry.resolver files) now).1 ≠ .error .exhausted ∧
      (∀ name ∈ node.castQuestions (registry.resolver files) value now,
        schemaOf (now.lookup later name).1 = schemaOf (now.lookup files name).1) ∧
      (outcome.demand { now.resolver later with size := 100 } now).1 =
        (outcome.demand (registry.resolver files) now).1 := by
  intro size unit files later registry node value
  let result := node.examine (registry.resolver files) value registry
  have valid : result.1.toOption.map isValid = some true := by decide +kernel
  have given : result.1.toOption.bind (fun outcome =>
      (outcome.demand (registry.resolver files) result.2).1.toOption.map fun _ => ()) =
        some () := by decide +kernel
  have questions : node.castQuestions (registry.resolver files) value result.2 = ["size"] := by
    decide +kernel
  have search : result.2.roots = ["lib"] ∧ result.2.extensions = ["json"] := by decide +kernel
  have early : files.locate "lib/size.json" = some ["lib", "size.json"] := by decide +kernel
  have late : later.locate "lib/size.json" = some ["lib", "size.json"] := by decide +kernel
  rcases examined : result with ⟨fault | outcome, now⟩
  · rw [examined] at valid
    cases valid
  · rw [examined] at valid given questions search
    obtain ⟨roots, extensions⟩ : now.roots = ["lib"] ∧ now.extensions = ["json"] := search
    have valid : outcome.isValid := Option.some.inj valid
    have ended : (outcome.demand (registry.resolver files) now).1 ≠ .error .exhausted := by
      intro cut
      change (outcome.demand (registry.resolver files) now).1.toOption.map _ = _ at given
      rw [cut] at given
      cases given
    have provided {tree : FileTree} (there : tree.fileAt? "lib/size.json" = some size.2) :
        now.providers tree "size" = [("lib/size.json", size.2)] := by
      have path : joinPath "lib" "size.json" = "lib/size.json" := by decide +kernel
      simp [providers, roots, extensions, path, there]
    have same : now.providers later "size" = now.providers files "size" := by
      rw [provided (by rw [FileTree.fileAt?, late]; rfl),
        provided (by rw [FileTree.fileAt?, early]; rfl)]
    have unchanged : ∀ name ∈ node.castQuestions (registry.resolver files) value now,
        schemaOf (now.lookup later name).1 = schemaOf (now.lookup files name).1 := by
      rw [questions]
      intro name mem
      rw [List.mem_singleton.mp mem, lookup_of_providers same]
    have enough : (registry.resolver files).size ≤ 100 := by decide +kernel
    exact ⟨outcome, now, examined, valid, ended, unchanged,
      demand_late examined valid ended later unchanged enough⟩

/-- A schema that is rewritten after the validation: an immediate cast reads the text as a number, a
late one leaves it as it is. -/
theorem demand_late_rewritten :
    let schema (text : String) (modified : Int) : FileTree :=
      { files := [(["lib", "size.json"], { contents := text.toUTF8, modified })]
        directories := [["lib"]] }
    let files := schema "\x7b\"type\": \"integer\", \"cast_str\": true\x7d" 1
    let later := schema "\"string\"" 2
    let registry := ofRoots ["lib"] ["json"]
    let node : Node := ⟨{}, .reference "size"⟩
    ∃ outcome now,
      node.examine (registry.resolver files) (.str "5") registry = (.ok outcome, now) ∧
      outcome.isValid ∧
      (outcome.demand (registry.resolver files) now).1.toOption.bind Prod.fst = some (.int 5) ∧
      (outcome.demand (now.resolver later) now).1.toOption.bind Prod.fst = some (.str "5") := by
  intro schema files later registry node
  let result := node.examine (registry.resolver files) (.str "5") registry
  have number {found : Option Json} (h : found.any (· == .int 5)) : found = some (.int 5) := by
    cases found with
    | none => cases h
    | some value => exact congrArg some (Json.eq_int_of_beq h)
  have text {found : Option Json} (h : found.any (· == .str "5")) : found = some (.str "5") := by
    cases found with
    | none => cases h
    | some value => exact congrArg some (Json.eq_str_of_beq h)
  have valid : result.1.toOption.map isValid = some true := by decide +kernel
  have early : result.1.toOption.bind (fun outcome =>
      (outcome.demand (registry.resolver files) result.2).1.toOption.bind Prod.fst) =
        some (.int 5) := number (by decide +kernel)
  have late : result.1.toOption.bind (fun outcome =>
      (outcome.demand (result.2.resolver later) result.2).1.toOption.bind Prod.fst) =
        some (.str "5") := text (by decide +kernel)
  rcases examined : result with ⟨fault | outcome, now⟩
  · rw [examined] at valid
    cases valid
  · rw [examined] at valid early late
    exact ⟨outcome, now, examined, Option.some.inj valid, early, late⟩

end Outcome

end SchemaCast
