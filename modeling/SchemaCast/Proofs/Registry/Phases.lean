import SchemaCast.Proofs.Registry.Session

/-!
# Phases of a registry

A registry starts empty, is partially loaded once a schema has been read, and is final once all
schemas have been loaded together. `Registry.Advances` says what one event does to the phase and how
it is answered. From it follow that no phase comes back, that the phase tells what the answers so
far have been, and that a final registry stays as it is whatever becomes of the files.
-/
namespace SchemaCast

/-- How far a phase is from the first one. -/
def Phase.rank : Phase → Nat
  | .empty => 0
  | .partiallyLoaded => 1
  | .eagerLoaded => 2

namespace Registry

variable {registry next : Registry} {files : FileTree} {name : String} {answer : Answer}

/-- What an event does to the phase of a registry, and what it is answered with. -/
inductive Advances (registry : Registry) : Answer → Registry → Prop where
  | fails {answer : Answer} {next : Registry} (h : ¬ answer.succeeds)
      (phase : next.phase = registry.phase)
      (unread : registry.schemas = [] → next.schemas = []) : Advances registry answer next
  | finds {loaded : Loaded} {next : Registry} (known : registry.schemas ≠ [])
      (phase : next.phase = registry.phase) :
      Advances registry (.schema (.ok (some loaded))) next
  | reads {loaded : Loaded} {next : Registry} (lazy : registry.phase ≠ .eagerLoaded)
      (phase : next.phase = .partiallyLoaded) :
      Advances registry (.schema (.ok (some loaded))) next
  | completes {next : Registry} (lazy : registry.phase ≠ .eagerLoaded)
      (phase : next.phase = .eagerLoaded) : Advances registry (.loaded (.ok ())) next

/-- An event that finds nothing may leave a registry as it is. -/
theorem Advances.stays (h : answer.succeeds = false) : registry.Advances answer registry :=
  .fails (Bool.eq_false_iff.mp h) rfl id

theorem schemas_ne_nil {loaded : Loaded} (found : registry.schemas.get? name = some loaded) :
    registry.schemas ≠ [] := by
  intro none
  rw [none] at found
  cases found

theorem Finds.advances {outcome : Except SchemaError (Option Loaded) × Registry}
    (lazy : registry.phase ≠ .eagerLoaded) (h : registry.Finds files name outcome) :
    registry.Advances (.schema outcome.1) outcome.2 := by
  cases h with
  | unnamed => exact .stays rfl
  | missing =>
    refine .fails (by simp [Answer.succeeds]) rfl fun unread => ?_
    rw [forget, unread]
    rfl
  | kept _ _ current => exact .finds (schemas_ne_nil (Option.filter_eq_some_iff.mp current).1) rfl
  | broken => exact .stays rfl
  | read => exact .reads lazy rfl
  | collision => exact .stays rfl

theorem lookup_advances (registry : Registry) (files : FileTree) (name : String) :
    registry.Advances (.schema (registry.lookup files name).1) (registry.lookup files name).2 := by
  by_cases final : registry.phase = .eagerLoaded
  · rw [lookup_of_final final]
    cases found : registry.schemas.get? name with
    | none => exact .stays rfl
    | some loaded => exact .finds (schemas_ne_nil found) rfl
  · exact (lookup_finds final).advances final

/-- A registry with one schema less advances as the registry itself. -/
theorem Advances.of_forget (h : (registry.forget name).Advances answer next) :
    registry.Advances answer next := by
  have unread : registry.schemas = [] → (registry.forget name).schemas = [] := by
    intro none
    rw [forget, none]
    rfl
  cases h with
  | fails failed phase keeps => exact .fails failed phase fun none => keeps (unread none)
  | finds known phase => exact .finds (fun none => known (unread none)) phase
  | reads lazy phase => exact .reads lazy phase
  | completes lazy phase => exact .completes lazy phase

theorem reload_advances (registry : Registry) (files : FileTree) (name : String) :
    registry.Advances (.schema (registry.reload files name).1) (registry.reload files name).2 := by
  by_cases final : registry.phase = .eagerLoaded
  · rw [reload_of_final final]
    exact .stays rfl
  · rw [reload_of_lazy final]
    exact (lookup_advances (registry.forget name) files name).of_forget

theorem eagerLoad_advances (registry : Registry) (files : FileTree) :
    registry.Advances (.loaded (registry.eagerLoad files).1) (registry.eagerLoad files).2 := by
  by_cases final : registry.phase = .eagerLoaded
  · rw [eagerLoad_of_final final]
    exact .stays rfl
  · rcases eagerLoad_cases final files with ⟨error, failed⟩ | ⟨schemas, _, loaded⟩
    · rw [failed]
      exact .stays rfl
    · rw [loaded]
      exact .completes final rfl

theorem Advances.rank_le (h : registry.Advances answer next) :
    registry.phase.rank ≤ next.phase.rank := by
  have below (lazy : registry.phase ≠ .eagerLoaded) : registry.phase.rank ≤ 1 := by
    cases phase : registry.phase with
    | empty => decide
    | partiallyLoaded => decide
    | eagerLoaded => exact absurd phase lazy
  cases h with
  | fails _ phase => exact Nat.le_of_eq (congrArg Phase.rank phase.symm)
  | finds _ phase => exact Nat.le_of_eq (congrArg Phase.rank phase.symm)
  | reads lazy phase =>
    rw [phase]
    exact below lazy
  | completes lazy phase =>
    rw [phase]
    exact Nat.le_succ_of_le (below lazy)

/-- What the phase of a registry tells about the answers so far. -/
structure Reflects (registry : Registry) (answers : List Answer) : Prop where
  empty_iff : registry.phase = .empty ↔ ∀ answer ∈ answers, ¬ answer.succeeds
  unread : registry.phase = .empty → registry.schemas = []
  final_iff : registry.phase = .eagerLoaded ↔ .loaded (.ok ()) ∈ answers

/-- The phase tells as much after an event as before. -/
theorem Reflects.advance {answers : List Answer} (h : registry.Reflects answers)
    (advances : registry.Advances answer next) : next.Reflects (answers ++ [answer]) := by
  have nothing : (∀ other ∈ answers ++ [answer], ¬ other.succeeds) ↔
      registry.phase = .empty ∧ ¬ answer.succeeds := by
    rw [h.empty_iff]
    simp only [List.mem_append, List.mem_singleton]
    constructor
    · intro all
      exact ⟨fun other mem => all other (.inl mem), all answer (.inr rfl)⟩
    · rintro ⟨before, now⟩ other (mem | rfl)
      · exact before other mem
      · exact now
  have complete : Answer.loaded (.ok ()) ∈ answers ++ [answer] ↔
      registry.phase = .eagerLoaded ∨ answer = .loaded (.ok ()) := by
    rw [h.final_iff, List.mem_append, List.mem_singleton, eq_comm (a := answer)]
  refine ⟨?_, ?_, ?_⟩
  · rw [nothing]
    cases advances with
    | fails failed phase => simp [phase, failed]
    | finds known phase =>
      have other : registry.phase ≠ .empty := fun empty => known (h.unread empty)
      simp [phase, other]
    | reads _ phase => simp [phase, Answer.succeeds]
    | completes _ phase => simp [phase, Answer.succeeds]
  · intro empty
    cases advances with
    | fails _ phase keeps => exact keeps (h.unread (phase ▸ empty))
    | finds known phase => exact absurd (h.unread (phase ▸ empty)) known
    | reads _ phase => simp [phase] at empty
    | completes _ phase => simp [phase] at empty
  · rw [complete]
    cases advances with
    | fails failed phase =>
      have other : answer ≠ .loaded (.ok ()) := by
        rintro rfl
        exact failed rfl
      simp [phase, other]
    | finds _ phase => simp [phase]
    | reads lazy phase => simp [phase, lazy]
    | completes _ phase => simp [phase]

end Registry

namespace Session

open Registry

theorem step_advances (session : Session) (event : Event) :
    session.registry.Advances (session.step event).1 (session.step event).2.registry := by
  cases event with
  | change files => exact .stays rfl
  | lookup name => exact lookup_advances session.registry session.files name
  | reload name => exact reload_advances session.registry session.files name
  | eagerLoad => exact eagerLoad_advances session.registry session.files

theorem rank_run_le (session : Session) (events : List Event) :
    session.registry.phase.rank ≤ (session.run events).2.registry.phase.rank := by
  induction events generalizing session with
  | nil => exact Nat.le_refl _
  | cons event rest ih => exact Nat.le_trans (session.step_advances event).rank_le (ih _)

theorem run_reflects (roots extensions : List String) (files : FileTree) (events : List Event) :
    ((start roots extensions files).run events).2.registry.Reflects
      ((start roots extensions files).run events).1 := by
  induction events using run_induction (start roots extensions files) with
  | start => exact ⟨by simp [start, ofRoots], fun _ => rfl, by simp [start, ofRoots]⟩
  | step events answers now event h => exact h.advance (now.step_advances event)

/-- Events leave a final registry as it is. -/
theorem run_of_final (session : Session) (final : session.registry.phase = .eagerLoaded)
    (events : List Event) : (session.run events).2.registry = session.registry := by
  have step_of_final (now : Session) (final : now.registry.phase = .eagerLoaded) (event : Event) :
      (now.step event).2.registry = now.registry := by
    cases event with
    | change files => rfl
    | lookup name => simp only [step, lookup_of_final final]
    | reload name => simp only [step, reload_of_final final]
    | eagerLoad => simp only [step, eagerLoad_of_final final]
  induction events generalizing session with
  | nil => rfl
  | cons event rest ih =>
    have same := step_of_final session final event
    calc (session.run (event :: rest)).2.registry
        = ((session.step event).2.run rest).2.registry := rfl
      _ = (session.step event).2.registry := ih _ (by rw [same, final])
      _ = session.registry := same

/-- The phase of a registry only ever goes on. It is the first one as long as nothing has been
loaded, and then no schema is kept. Once all schemas have been loaded together, the names and the
very schemas that are found stay the same whatever happens to the files, and nothing can be loaded
any more. -/
theorem phase_advances (roots extensions : List String) (files : FileTree)
    (events more : List Event) :
    let now := (start roots extensions files).run events
    let later := now.2.run more
    now.2.registry.phase.rank ≤ later.2.registry.phase.rank ∧
    (now.2.registry.phase = .empty ↔ ∀ answer ∈ now.1, ¬ answer.succeeds) ∧
    (now.2.registry.phase = .empty → now.2.registry.schemas = []) ∧
    (.loaded (.ok ()) ∈ now.1 → later.2.registry.names = now.2.registry.names ∧
      ∀ tree name,
        (later.2.registry.lookup tree name).1 = (now.2.registry.lookup now.2.files name).1 ∧
        (later.2.registry.reload tree name).1 = .error .alreadyEagerLoaded ∧
        (later.2.registry.eagerLoad tree).1 = .error .alreadyEagerLoaded) := by
  intro now later
  have reflects := run_reflects roots extensions files events
  refine ⟨now.2.rank_run_le more, reflects.empty_iff, reflects.unread, fun loaded => ?_⟩
  have final : now.2.registry.phase = .eagerLoaded := reflects.final_iff.mpr loaded
  have same : later.2.registry = now.2.registry := run_of_final now.2 final more
  rw [same]
  refine ⟨rfl, fun tree name => ⟨?_, ?_, ?_⟩⟩
  · rw [lookup_of_final final, lookup_of_final final]
  · rw [reload_of_final final]
  · rw [eagerLoad_of_final final]

/-- A schema that was loaded before its file is gone. -/
theorem phase_advances_circle :
    let circle : File := { contents := "\"string\"".toUTF8, modified := 1 }
    let files := FileTree.write {} "lib/shapes/circle.json" circle
    let now := (start ["lib"] ["json"] files).run [.lookup "shapes/circle", .eagerLoad]
    let later := now.2.run [.change {}, .reload "shapes/circle"]
    .loaded (.ok ()) ∈ now.1 ∧ later.2.registry.names = ["shapes/circle"] ∧
      ∀ tree, (later.2.registry.lookup tree "shapes/circle").1 =
        (now.2.registry.lookup files "shapes/circle").1 := by
  intro circle files now later
  have final : now.2.registry.phase = .eagerLoaded := by decide +kernel
  have loaded := (run_reflects ["lib"] ["json"] files _).final_iff.mp final
  obtain ⟨names, answers⟩ := (phase_advances ["lib"] ["json"] files
    [.lookup "shapes/circle", .eagerLoad] [.change {}, .reload "shapes/circle"]).2.2.2 loaded
  refine ⟨loaded, ?_, fun tree => (answers tree "shapes/circle").1⟩
  rw [names]
  decide +kernel

end Session

end SchemaCast
