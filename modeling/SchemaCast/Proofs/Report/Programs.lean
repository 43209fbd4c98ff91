import SchemaCast.Proofs.Report.Texts

/-!
# Programs on a log

A program records messages and works below segments, to any depth. A body comes back with a result, from
any point, and the program around it goes on by that result, so it may come back at once as well; all of
this may depend on what the log shows. What happens in a run are the records that it comes to, each at
the path of the segments around it. A log collects just this: it comes back to the path where it was, and
groups what happened before and in the run by paths, without losing or changing the order of anything.
-/
namespace SchemaCast

/-- A program that works on a log and comes back with a result. -/
inductive LogProgram : Type → Type 1 where
  /-- Come back with a result. What another branch would have recorded does not happen. -/
  | done {α : Type} (result : α) : LogProgram α
  | record {α : Type} (message : String) (next : LogProgram α) : LogProgram α
  /-- Work below a segment, and go on with the result. -/
  | within {α β : Type} (segment : Segment) (body : LogProgram β) (next : β → LogProgram α) :
    LogProgram α
  /-- Go on by what the log shows. -/
  | look {α : Type} (next : ErrorLog → LogProgram α) : LogProgram α

namespace LogProgram

/-- The result of a program, and the log after it. -/
def run {α : Type} : LogProgram α → ErrorLog → α × ErrorLog
  | .done result, log => (result, log)
  | .record message next, log => next.run (log.record message)
  | .within segment body next, log =>
    (next (body.run (log.enter segment)).1).run (log.within segment fun inner => (body.run inner).2)
  | .look next, log => (next log).run log

/-- What a run records, in order, with the paths of the segments around it. The log decides about the
course of the run only. -/
def events {α : Type} : LogProgram α → Path → ErrorLog → List (Path × String)
  | .done _, _, _ => []
  | .record message next, path, log => (path, message) :: next.events path (log.record message)
  | .within segment body next, path, log =>
    body.events (path.push segment) (log.enter segment) ++
      (next (body.run (log.enter segment)).1).events path
        (log.within segment fun inner => (body.run inner).2)
  | .look next, path, log => (next log).events path log

/-! ### Steps are programs -/

mutual

/-- A step, and a program after it. -/
def ofStep {α : Type} : LogStep → LogProgram α → LogProgram α
  | .record message, next => .record message next
  | .within segment body, next => .within segment (ofSteps body (.done ())) fun _ => next

/-- Steps in a row, and a program after them. -/
def ofSteps {α : Type} : List LogStep → LogProgram α → LogProgram α
  | [], next => next
  | step :: rest, next => ofStep step (ofSteps rest next)

end

mutual

theorem run_ofStep {α : Type} (step : LogStep) (next : LogProgram α) (log : ErrorLog) :
    (ofStep step next).run log = next.run (step.run log) := by
  cases step with
  | record message => rfl
  | within segment body =>
    have work : (fun inner => ((ofSteps body (.done ())).run inner).2) = LogStep.runAll body :=
      funext fun inner => congrArg Prod.snd (run_ofSteps body (.done ()) inner)
    rw [ofStep, run, work]
    rfl

/-- Steps do as programs what they do as steps. -/
theorem run_ofSteps {α : Type} (steps : List LogStep) (next : LogProgram α) (log : ErrorLog) :
    (ofSteps steps next).run log = next.run (LogStep.runAll steps log) := by
  cases steps with
  | nil => rfl
  | cons step rest =>
    rw [ofSteps, run_ofStep, run_ofSteps]
    rfl

end

end LogProgram

namespace ErrorLog

/-- Put messages into the groups of a log, each at its path. -/
def collect (log : ErrorLog) (events : List (Path × String)) : ErrorLog :=
  { log with groups := gather log.groups events }

@[simp] theorem current_collect (log : ErrorLog) (events : List (Path × String)) :
    (log.collect events).current = log.current := rfl

theorem collect_append (log : ErrorLog) (events more : List (Path × String)) :
    (log.collect events).collect more = log.collect (events ++ more) := by
  simp [collect, gather_append]

/-- Messages may be put into groups below a segment or outside of it. -/
theorem leave_collect_enter (log : ErrorLog) (segment : Segment) (events : List (Path × String)) :
    ((log.enter segment).collect events).leave = log.collect events := by
  simp [collect, leave, enter]

theorem length_report (log : ErrorLog) : log.report.length = log.count := by
  obtain ⟨current, groups⟩ := log
  simp only [report, count]
  induction groups with
  | nil => rfl
  | cons group rest ih =>
    rw [List.flatMap_cons, List.length_append, List.length_map, List.foldr_cons, ih]

theorem count_record (log : ErrorLog) (message : String) :
    (log.record message).count = log.count + 1 := by
  rw [← length_report, (report_record log message).length_eq, List.length_cons, length_report]

theorem count_collect (log : ErrorLog) (events : List (Path × String)) :
    (log.collect events).count = log.count + events.length := by
  induction events generalizing log with
  | nil => rfl
  | cons event rest ih =>
    -- An event is put into its group as a message is that is recorded at the path of the event.
    have first : (ErrorLog.mk log.current (addTo event.1 event.2 log.groups)).count = log.count + 1 :=
      count_record ⟨event.1, log.groups⟩ event.2
    show (collect ⟨log.current, addTo event.1 event.2 log.groups⟩ rest).count = _
    rw [ih, first, List.length_cons]
    omega

/-- A log groups what has happened by paths. -/
structure Collects (log : ErrorLog) (events : List (Path × String)) : Prop where
  /-- The paths stand in the order of their first messages, each with its messages in order. -/
  groups : log.groups = (placesOf events).map fun path => (path, saidAt events path)
  once : (log.groups.map Prod.fst).Nodup
  listed : ∀ path, path ∈ log.groups.map Prod.fst ↔ ∃ message, (path, message) ∈ events
  count : log.count = events.length
  isEmpty : log.isEmpty ↔ events = []
  report : log.report = (placesOf events).flatMap fun path =>
    (saidAt events path).map fun message => (path, message)
  length_report : log.report.length = log.count

/-- From nothing, a log collects what is put into it. -/
theorem collects_of_gather {log : ErrorLog} {events : List (Path × String)}
    (gathered : log.groups = gather [] events) : log.Collects events := by
  have groups : log.groups = (placesOf events).map fun path => (path, saidAt events path) :=
    gathered.trans (gather_nil events)
  have paths : log.groups.map Prod.fst = placesOf events := gathered ▸ keys_gather_nil events
  have count : log.count = events.length := by
    have collected : log = collect { current := log.current } events := by
      rw [collect, ← gathered]
    rw [collected, count_collect]
    exact Nat.zero_add _
  refine ⟨groups, paths ▸ nodup_placesOf events, fun path => ?_, count, ?_, ?_, length_report log⟩
  · rw [paths, mem_placesOf]
  · rw [ErrorLog.isEmpty, groups, List.isEmpty_iff, List.map_eq_nil_iff, placesOf_eq_nil_iff]
  · rw [report, groups, List.flatMap_map]

end ErrorLog

/-! ### Runs collect what happens in them -/

namespace LogProgram

/-- A run puts its events into the groups that the log has, and comes back to its path. -/
theorem run_eq {α : Type} (program : LogProgram α) (log : ErrorLog) :
    (program.run log).2 = log.collect (program.events log.current log) := by
  induction program generalizing log with
  | done result => rfl
  | record message next ih => exact ih (log.record message)
  | within segment body next ihBody ihNext =>
    have back : (log.within segment fun inner => (body.run inner).2) =
        log.collect (body.events (log.current.push segment) (log.enter segment)) := by
      rw [ErrorLog.within, ihBody, ErrorLog.leave_collect_enter]
      rfl
    rw [run, events, ihNext, back, ErrorLog.collect_append, ErrorLog.current_collect]
  | look next ih => exact ih log log

/-- Whatever a program does, the log is back at its path in the end, and has collected what happened in
the run behind what it had collected before: each path at which something was recorded has one group, in
the order of the first records, with all its messages in order; there are as many messages as records; and
the report lists them group by group. -/
theorem run_collects {α : Type} (program : LogProgram α) (log : ErrorLog)
    {past : List (Path × String)} (collected : log.Collects past) :
    (program.run log).2.current = log.current ∧
      (program.run log).2.Collects (past ++ program.events log.current log) := by
  have before : log.groups = ErrorLog.gather [] past :=
    collected.groups.trans (ErrorLog.gather_nil past).symm
  rw [run_eq]
  refine ⟨rfl, ErrorLog.collects_of_gather ?_⟩
  rw [ErrorLog.gather_append, ← before]
  rfl

/-- A body that comes back early, a path that is come back to, and a branch that is not taken. -/
theorem run_collects_early :
    let program : LogProgram Bool :=
      .within (.key "a") (.record "first" <| .look fun log =>
        if log.isEmpty then .record "skipped" (.done false) else .done true) fun stop =>
      .record "second" <| .within (.key "a") (.record "third" (.done ())) fun _ =>
      if stop then .done true else .record "unreached" (.done false)
    let log := (program.run {}).2
    ({} : ErrorLog).Collects [] ∧ log.current = .root ∧
      log.groups = [(⟨[.key "a"]⟩, ["first", "third"]), (.root, ["second"])] ∧
      log.report.length = 3 := by
  intro program log
  have fresh : ({} : ErrorLog).Collects [] := ErrorLog.collects_of_gather rfl
  obtain ⟨current, collects⟩ := run_collects program {} fresh
  refine ⟨fresh, current, collects.groups.trans (by decide), ?_⟩
  exact collects.length_report.trans (collects.count.trans (by decide))

end LogProgram

end SchemaCast
