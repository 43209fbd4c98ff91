import Mathlib.Data.List.Induction
import SchemaCast.Proofs.Registry.Lookup

/-!
# Sessions with a registry

A session is a registry together with the files as they are now. Between two calls the files may
change in any way, and nothing tells the registry about it. `Session.run_induction` carries what
holds at the start of a session through all that happens in it.
-/
namespace SchemaCast

/-- Something that happens in a session. -/
inductive Event where
  /-- From now on, these are the files. -/
  | change (files : FileTree)
  | lookup (name : String)
  | reload (name : String)
  | eagerLoad

/-- What an event is answered with. -/
inductive Answer where
  | changed
  | schema (result : Except SchemaError (Option Loaded))
  | loaded (result : Except SchemaError Unit)

/-- Whether something has been loaded. -/
def Answer.succeeds : Answer → Bool
  | .schema (.ok (some _)) => true
  | .loaded (.ok _) => true
  | _ => false

/-- A registry and the files as they are now. -/
structure Session where
  files : FileTree
  registry : Registry

namespace Session

/-- The answer to an event, and the session after it. -/
def step (session : Session) : Event → Answer × Session
  | .change files => (.changed, { session with files })
  | .lookup name =>
    let (result, registry) := session.registry.lookup session.files name
    (.schema result, { session with registry })
  | .reload name =>
    let (result, registry) := session.registry.reload session.files name
    (.schema result, { session with registry })
  | .eagerLoad =>
    let (result, registry) := session.registry.eagerLoad session.files
    (.loaded result, { session with registry })

/-- The answers to events one after the other, and the session after them. -/
def run (session : Session) : List Event → List Answer × Session
  | [] => ([], session)
  | event :: rest =>
    let (answer, next) := session.step event
    let (answers, last) := next.run rest
    (answer :: answers, last)

/-- A session with a registry that has loaded nothing yet. -/
def start (roots extensions : List String) (files : FileTree) : Session :=
  { files, registry := .ofRoots roots extensions }

theorem run_append (session : Session) (events more : List Event) :
    session.run (events ++ more) =
      ((session.run events).1 ++ ((session.run events).2.run more).1,
        ((session.run events).2.run more).2) := by
  induction events generalizing session with
  | nil => rfl
  | cons event rest ih =>
    simp only [List.cons_append, run, ih]

/-- What holds before anything has happened and is kept by every event holds in the end. -/
theorem run_induction (session : Session) {motive : List Event → List Answer → Session → Prop}
    (start : motive [] [] session)
    (step : ∀ events answers now event, motive events answers now →
      motive (events ++ [event]) (answers ++ [(now.step event).1]) (now.step event).2)
    (events : List Event) : motive events (session.run events).1 (session.run events).2 := by
  induction events using List.reverseRecOn with
  | nil => exact start
  | append_singleton events event ih =>
    rw [run_append]
    exact step _ _ _ event ih

/-- A registry that is made from settings is one after the events of a session. -/
theorem exists_run_of_ofSettings {settings : Settings} {files : FileTree} {registry : Registry}
    (made : Registry.ofSettings settings files = .ok registry) :
    ∃ events, ((start settings.searchRoots settings.extensions files).run events).2 =
      { files, registry } := by
  unfold Registry.ofSettings at made
  by_cases eager : settings.eagerLoad
  · rw [if_pos eager] at made
    refine ⟨[.eagerLoad], ?_⟩
    cases loaded : (Registry.ofRoots settings.searchRoots settings.extensions).eagerLoad files with
    | mk result registry =>
      rw [loaded] at made
      cases result with
      | error error => cases made
      | ok done =>
        cases made
        simp only [run, step, start, loaded]
  · rw [if_neg eager] at made
    cases made
    exact ⟨[], rfl⟩

end Session

end SchemaCast
