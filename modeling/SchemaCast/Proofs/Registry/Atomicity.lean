import SchemaCast.Proofs.Registry.Session

/-!
# Errors and effects of a registry

A request that fails leaves a registry as it was, however much had been read before; only a reload
has then forgotten its name. A request for one name changes nothing that is kept under other names,
so that what a session keeps under a name can only change when the name is asked for or all schemas
are loaded together.
-/
namespace SchemaCast

namespace Registry

variable {registry next : Registry} {files : FileTree} {name other : String}

theorem Finds.eq_of_error {error : SchemaError}
    (h : registry.Finds files name (.error error, next)) : next = registry := by
  cases h with
  | broken => rfl
  | collision => rfl

theorem Finds.get?_of_ne {outcome : Except SchemaError (Option Loaded) × Registry}
    (h : registry.Finds files name outcome) (ne : other ≠ name) :
    outcome.2.schemas.get? other = registry.schemas.get? other := by
  cases h with
  | unnamed => rfl
  | missing => exact Entries.get?_erase_of_ne registry.schemas ne
  | kept => rfl
  | broken => rfl
  | read => exact Entries.get?_insert_of_ne registry.schemas _ ne
  | collision => rfl

theorem lookup_of_error {error : SchemaError} (h : (registry.lookup files name).1 = .error error) :
    (registry.lookup files name).2 = registry := by
  by_cases final : registry.phase = .eagerLoaded
  · rw [lookup_of_final final]
  · have found : registry.Finds files name (registry.lookup files name) := lookup_finds final
    rw [← Prod.eta (registry.lookup files name), h] at found
    exact found.eq_of_error

/-- A lookup changes nothing that is kept under another name. -/
theorem get?_lookup_of_ne (registry : Registry) (files : FileTree) (ne : other ≠ name) :
    (registry.lookup files name).2.schemas.get? other = registry.schemas.get? other := by
  by_cases final : registry.phase = .eagerLoaded
  · rw [lookup_of_final final]
  · exact (lookup_finds final).get?_of_ne ne

/-- A reload changes nothing that is kept under another name. -/
theorem get?_reload_of_ne (registry : Registry) (files : FileTree) (ne : other ≠ name) :
    (registry.reload files name).2.schemas.get? other = registry.schemas.get? other := by
  by_cases final : registry.phase = .eagerLoaded
  · rw [reload_of_final final]
  · rw [reload_of_lazy final, get?_lookup_of_ne _ files ne]
    exact Entries.get?_erase_of_ne registry.schemas ne

theorem reload_of_error (lazy : registry.phase ≠ .eagerLoaded) {error : SchemaError}
    (h : (registry.reload files name).1 = .error error) :
    (registry.reload files name).2 = registry.forget name := by
  rw [reload_of_lazy lazy] at h ⊢
  exact lookup_of_error h

theorem eagerLoad_of_error {error : SchemaError} (h : (registry.eagerLoad files).1 = .error error) :
    (registry.eagerLoad files).2 = registry := by
  by_cases final : registry.phase = .eagerLoaded
  · rw [eagerLoad_of_final final]
  · rcases eagerLoad_cases final files with ⟨_, failed⟩ | ⟨schemas, _, loaded⟩
    · rw [failed]
    · rw [loaded] at h
      cases h

end Registry

/-- Whether an event may change what is kept under a name. -/
def Event.concerns (name : String) : Event → Bool
  | .change _ => false
  | .lookup other => other = name
  | .reload other => other = name
  | .eagerLoad => true

namespace Session

open Registry

theorem get?_step {name : String} {event : Event} (session : Session)
    (h : event.concerns name = false) :
    (session.step event).2.registry.schemas.get? name = session.registry.schemas.get? name := by
  cases event with
  | change files => rfl
  | lookup other =>
    have ne : name ≠ other := fun same => by simp [Event.concerns, same] at h
    exact get?_lookup_of_ne session.registry session.files ne
  | reload other =>
    have ne : name ≠ other := fun same => by simp [Event.concerns, same] at h
    exact get?_reload_of_ne session.registry session.files ne
  | eagerLoad => cases h

/-- Whatever happens to the files and to other names, a name keeps its schema. -/
theorem get?_run {name : String} (session : Session) (events : List Event)
    (h : ∀ event ∈ events, event.concerns name = false) :
    (session.run events).2.registry.schemas.get? name = session.registry.schemas.get? name := by
  induction events generalizing session with
  | nil => rfl
  | cons event rest ih =>
    have later := ih (session.step event).2 fun event mem => h event (List.mem_cons_of_mem _ mem)
    exact later.trans (session.get?_step (h event (List.mem_cons_self ..)))

/-- A lookup or an eager load that fails leaves everything as it was; a reload that fails has
forgotten the schema of its name and done nothing else. A lookup or reload that succeeds touches no
other name. -/
theorem errors_atomic (roots extensions : List String) (files : FileTree) (events : List Event)
    (tree : FileTree) (name : String) :
    let now := ((start roots extensions files).run events).2.registry
    (∀ error, (now.lookup tree name).1 = .error error → (now.lookup tree name).2 = now) ∧
    (∀ error, (now.eagerLoad tree).1 = .error error → (now.eagerLoad tree).2 = now) ∧
    (now.phase ≠ .eagerLoaded → ∀ error, (now.reload tree name).1 = .error error →
      (now.reload tree name).2 = { now with schemas := now.schemas.erase name }) ∧
    ∀ other ≠ name,
      (now.lookup tree name).2.schemas.get? other = now.schemas.get? other ∧
      (now.reload tree name).2.schemas.get? other = now.schemas.get? other := by
  intro now
  refine ⟨fun error => lookup_of_error, fun error => eagerLoad_of_error,
    fun lazy error => reload_of_error lazy, fun other ne => ?_⟩
  exact ⟨get?_lookup_of_ne now tree ne, get?_reload_of_ne now tree ne⟩

/-- A schema whose file gets broken, next to one that stays although its file is gone. -/
theorem errors_atomic_broken :
    let circle (text : String) (modified : Int) : Location × File :=
      (["lib", "circle.json"], { contents := text.toUTF8, modified })
    let square : Location × File :=
      (["lib", "square.json"], { contents := "\"integer\"".toUTF8, modified := 1 })
    let files : FileTree :=
      { files := [circle "\"string\"" 1, square], directories := [["lib"]] }
    let tree : FileTree := { files := [circle "\x7b" 2], directories := [["lib"]] }
    let now := ((start ["lib"] ["json"] files).run [.lookup "circle", .lookup "square"]).2.registry
    (∃ error, (now.lookup tree "circle").1 = .error error) ∧ (now.lookup tree "circle").2 = now ∧
    (∃ error, (now.eagerLoad tree).1 = .error error) ∧ (now.eagerLoad tree).2 = now ∧
    (∃ error, (now.reload tree "circle").1 = .error error) ∧
      (now.reload tree "circle").2.names = ["square"] ∧
    (now.lookup tree "square").2.schemas.get? "circle" = now.schemas.get? "circle" := by
  intro circle square files tree now
  have failed {α : Type} {answer : Except SchemaError α} (h : answer.isOk = false) :
      ∃ error, answer = .error error := by
    cases answer with
    | error error => exact ⟨error, rfl⟩
    | ok value => cases h
  obtain ⟨_, looked⟩ : ∃ error, (now.lookup tree "circle").1 = .error error :=
    failed (by decide +kernel)
  obtain ⟨_, loaded⟩ : ∃ error, (now.eagerLoad tree).1 = .error error :=
    failed (by decide +kernel)
  obtain ⟨_, reloaded⟩ : ∃ error, (now.reload tree "circle").1 = .error error :=
    failed (by decide +kernel)
  have lazy : now.phase ≠ .eagerLoaded := by decide +kernel
  have atomic := errors_atomic ["lib"] ["json"] files [.lookup "circle", .lookup "square"] tree
  obtain ⟨atLookup, atEagerLoad, atReload, -⟩ := atomic "circle"
  have others := (atomic "square").2.2.2 "circle" (by decide)
  refine ⟨⟨_, looked⟩, atLookup _ looked, ⟨_, loaded⟩, atEagerLoad _ loaded, ⟨_, reloaded⟩, ?_,
    others.1⟩
  rw [atReload lazy _ reloaded]
  decide +kernel

end Session

end SchemaCast
