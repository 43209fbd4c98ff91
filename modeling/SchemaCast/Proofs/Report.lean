import SchemaCast.Proofs.Determinacy

/-!
# What a check adds to a report

A check that comes to a result leaves the messages before it alone and comes back to the path it
started from. `Check.Writes` says where below that path it records, and what, with one rule for
each operation checks are made of. The check of a value at a place writes below the current path
what a validation of its own reports.
-/
namespace SchemaCast

namespace ErrorLog

theorem mem_report {log : ErrorLog} {entry : Path × String} :
    entry ∈ log.report ↔ ∃ messages, (entry.1, messages) ∈ log.groups ∧ entry.2 ∈ messages := by
  obtain ⟨path, message⟩ := entry
  simp only [report, List.mem_flatMap, List.mem_map, Prod.mk.injEq, Prod.exists]
  constructor
  · intro h
    obtain ⟨_, messages, group, other, mem, rfl, rfl⟩ := h
    exact ⟨messages, group, mem⟩
  · intro h
    obtain ⟨messages, group, mem⟩ := h
    exact ⟨path, messages, group, message, mem, rfl, rfl⟩

@[simp] theorem report_enter (log : ErrorLog) (segment : Segment) :
    (log.enter segment).report = log.report := rfl

@[simp] theorem report_leave (log : ErrorLog) : log.leave.report = log.report := rfl

/-- Recording adds one message, at the current path. -/
theorem report_record (log : ErrorLog) (message : String) :
    (log.record message).report.Perm ((log.current, message) :: log.report) := by
  obtain ⟨path, groups⟩ := log
  simp only [report, record]
  induction groups with
  | nil => exact .refl _
  | cons group rest ih =>
    obtain ⟨place, messages⟩ := group
    rw [addTo]
    split
    · next same =>
      subst same
      simp only [List.flatMap_cons, List.map_append, List.map_cons, List.map_nil,
        List.append_assoc, List.singleton_append]
      exact List.perm_middle
    · simp only [List.flatMap_cons]
      exact (ih.append_left _).trans List.perm_middle

theorem mem_report_record {log : ErrorLog} {message : String} {entry : Path × String} :
    entry ∈ (log.record message).report ↔ entry ∈ log.report ∨ entry = (log.current, message) := by
  rw [(report_record log message).mem_iff, List.mem_cons, or_comm]

end ErrorLog

/-! ### Steps on a log -/

namespace LogStep

mutual

/-- The messages of a step, each with its path below the place where the step begins. -/
def notes : LogStep → List (Path × String)
  | .record message => [(.root, message)]
  | .within segment body =>
    (notesAll body).map fun note => (⟨segment :: note.1.segments⟩, note.2)

/-- The messages of steps in a row. -/
def notesAll : List LogStep → List (Path × String)
  | [] => []
  | step :: rest => notes step ++ notesAll rest

end

mutual

/-- A step comes back to where it began, and adds its messages below that path. -/
theorem run_adds (step : LogStep) (log : ErrorLog) :
    (run step log).current = log.current ∧ ∀ entry, entry ∈ (run step log).report ↔
      entry ∈ log.report ∨ ∃ note ∈ notes step, entry = (log.current.append note.1, note.2) := by
  cases step with
  | record message =>
    refine ⟨rfl, fun entry => ?_⟩
    rw [run, ErrorLog.mem_report_record]
    simp [notes]
  | within segment body =>
    obtain ⟨current, adds⟩ := runAll_adds body (log.enter segment)
    have back : (runAll body (log.enter segment)).leave.current = log.current := by
      rw [ErrorLog.leave, current]
      exact Path.pop_push log.current segment
    refine ⟨back, fun entry => ?_⟩
    have joined (path : Path) : (log.enter segment).current.append path =
        log.current.append ⟨segment :: path.segments⟩ := by
      simp [ErrorLog.enter, Path.append, Path.push]
    rw [run, ErrorLog.within, ErrorLog.report_leave, adds entry, ErrorLog.report_enter]
    simp only [notes, List.mem_map, joined]
    refine or_congr_right ⟨?_, ?_⟩
    · rintro ⟨note, mem, rfl⟩
      exact ⟨_, ⟨note, mem, rfl⟩, rfl⟩
    · rintro ⟨_, ⟨note, mem, rfl⟩, rfl⟩
      exact ⟨note, mem, rfl⟩

/-- Steps in a row come back to where they began, and add their messages below that path. -/
theorem runAll_adds (steps : List LogStep) (log : ErrorLog) :
    (runAll steps log).current = log.current ∧ ∀ entry, entry ∈ (runAll steps log).report ↔
      entry ∈ log.report ∨
        ∃ note ∈ notesAll steps, entry = (log.current.append note.1, note.2) := by
  cases steps with
  | nil => simp [runAll, notesAll]
  | cons step rest =>
    obtain ⟨current, adds⟩ := run_adds step log
    obtain ⟨current', adds'⟩ := runAll_adds rest (run step log)
    refine ⟨by rw [runAll, current', current], fun entry => ?_⟩
    rw [runAll, adds' entry, adds entry, current]
    simp only [notesAll, List.mem_append, or_and_right, exists_or, or_assoc]

end

theorem mem_report_runAll {steps : List LogStep} {entry : Path × String} :
    entry ∈ (runAll steps {}).report ↔ entry ∈ notesAll steps := by
  rw [(runAll_adds steps {}).2]
  have none : ({} : ErrorLog).report = [] := rfl
  have root (path : Path) : ({} : ErrorLog).current.append path = path := Path.root_append path
  simp [none, root]

end LogStep

/-! ### Checks -/

variable {σ α β γ : Type}

/-- Every result of a check is as stated; and the check comes back to the path at which it began,
keeps the messages before it, and adds no others but those stated for the paths below. -/
def Check.Writes (c : Check σ α) (Q : α → Prop) (P : List Segment → String → Prop) : Prop :=
  ∀ log s a log' s', c (log, s) = (.ok a, log', s') → Q a ∧ log'.current = log.current ∧
    ∀ entry ∈ log'.report, entry ∈ log.report ∨
      ∃ below, entry.1 = log.current.append ⟨below⟩ ∧ P below entry.2

namespace Check.Writes

variable {P R : List Segment → String → Prop} {Q : α → Prop}

theorem imp {c : Check σ α} (h : c.Writes Q P) (himp : ∀ below message, P below message →
    R below message) : c.Writes Q R := by
  intro log s a log' s' heq
  obtain ⟨hq, current, adds⟩ := h log s a log' s' heq
  refine ⟨hq, current, fun entry mem => (adds entry mem).imp_right ?_⟩
  rintro ⟨below, path, hp⟩
  exact ⟨below, path, himp below entry.2 hp⟩

theorem pure {a : α} (h : Q a) : Writes (Pure.pure a : Check σ α) Q P := by
  rintro log s _ _ _ ⟨⟩
  exact ⟨h, rfl, fun entry mem => .inl mem⟩

theorem bind {Q' : β → Prop} {c : Check σ α} {f : α → Check σ β} (hc : c.Writes Q P)
    (hf : ∀ a, Q a → (f a).Writes Q' P) : Writes (c >>= f) Q' P := by
  intro log s b log'' s'' heq
  obtain ⟨a, ⟨log', s'⟩, ha, hb⟩ := Run.bind_eq_ok heq
  obtain ⟨hq, current, adds⟩ := hc log s a log' s' ha
  obtain ⟨hq', current', adds'⟩ := hf a hq log' s' b log'' s'' hb
  refine ⟨hq', current'.trans current, fun entry mem => ?_⟩
  rcases adds' entry mem with known | new
  · exact adds entry known
  · rw [current] at new
    exact .inr new

theorem seq {Q' : β → Prop} {c : Check σ Unit} {d : Check σ β} (hc : c.Writes (fun _ => True) P)
    (hd : d.Writes Q' P) : Writes (c >>= fun _ => d) Q' P := bind hc fun _ _ => hd

theorem ofRun {x : Run σ α} (h : x.Gives Q) : Writes (Check.ofRun x) Q P := by
  intro log s a log' s' heq
  rcases hx : x s with ⟨r, t⟩
  rw [Check.ofRun_apply log hx] at heq
  cases heq
  exact ⟨(h s trivial).2.1 a (by rw [hx]), rfl, fun entry mem => .inl mem⟩

/-- A run, such as that of trials on logs of their own, writes nothing. -/
theorem silent (x : Run σ α) : Writes (Check.ofRun x) (fun _ => True) P :=
  ofRun fun _ _ => ⟨trivial, fun _ _ => trivial, fun _ _ => trivial⟩

theorem record {violation : Violation} (h : P [] violation.message) :
    Writes (Check.record violation : Check σ Unit) (fun _ => True) P := by
  rintro log s _ _ _ ⟨⟩
  refine ⟨trivial, rfl, fun entry mem => (ErrorLog.mem_report_record.mp mem).imp_right ?_⟩
  rintro rfl
  exact ⟨[], (Path.append_root log.current).symm, h⟩

theorem recordIf {condition : Bool} {violation : Violation}
    (h : condition = true → P [] violation.message) :
    Writes (Check.recordIf condition violation : Check σ Unit) (fun _ => True) P := by
  unfold Check.recordIf
  split
  · next holds => exact record (h holds)
  · exact pure trivial

theorem forM {f : γ → Check σ Unit} (items : List γ)
    (h : ∀ item ∈ items, (f item).Writes (fun _ => True) P) :
    Writes (items.forM f) (fun _ => True) P := by
  induction items with
  | nil => exact pure trivial
  | cons item rest ih =>
    exact seq (h item (by simp)) (ih fun other hother => h other (by simp [hother]))

theorem recordAll {violations : List Violation}
    (h : ∀ violation ∈ violations, P [] violation.message) :
    Writes (Check.recordAll violations : Check σ Unit) (fun _ => True) P :=
  forM violations fun violation mem => record (h violation mem)

/-- Below a segment all paths begin with it. -/
theorem within {c : Check σ α} (segment : Segment)
    (h : c.Writes Q fun below message => P (segment :: below) message) :
    Writes (Check.within segment c) Q P := by
  intro log s a log' s' heq
  rcases hc : c (log.enter segment, s) with ⟨r, inner, t⟩
  rw [Check.within_apply hc] at heq
  cases heq
  obtain ⟨hq, current, adds⟩ := h (log.enter segment) s a inner s' hc
  refine ⟨hq, ?_, fun entry mem => (adds entry mem).imp_right ?_⟩
  · rw [ErrorLog.leave, current]
    exact Path.pop_push log.current segment
  · rintro ⟨below, path, hp⟩
    refine ⟨segment :: below, ?_, hp⟩
    rw [path]
    simp [ErrorLog.enter, Path.append, Path.push]

/-- The log of a trial has nothing but what the check writes. -/
theorem report {c : Check σ Unit} (h : c.Writes (fun _ => True) P) {s : σ} {log : ErrorLog}
    (ended : (Check.trial c s).1 = .ok log) {entry : Path × String} (mem : entry ∈ log.report) :
    P entry.1.segments entry.2 := by
  rcases hc : c ({}, s) with ⟨fault | u, log', s'⟩ <;> rw [Check.trial_apply hc] at ended <;>
    cases ended
  obtain ⟨_, _, adds⟩ := h {} s u _ s' hc
  rcases adds entry mem with before | ⟨below, path, hp⟩
  · cases before
  · have same : entry.1 = ⟨below⟩ := path.trans (Path.root_append _)
    rw [same]
    exact hp

end Check.Writes

/-- With a context alone, the check of a value writes below the current path what the validation of
the value reports. -/
theorem Place.writes_check {context : Context} (place : Place) (fuel : Nat) (value : Json) :
    (place.node.check fuel value (place.scope (.ofContext context : Resolver σ))).Writes
      (fun _ => True) fun below message => ∃ log,
        (place.validate fuel (.ofContext context) value ()).1 = .ok log ∧
          (⟨below⟩, message) ∈ log.report := by
  have alike : (alike σ Unit).check (fun _ _ => True)
      (place.node.check fuel value (place.scope (.ofContext context)))
      (place.node.check fuel value (place.scope (.ofContext context))) :=
    check_alike place fuel value
  obtain ⟨r, r', steps, same, acts, acts'⟩ := alike
  intro log s a log' s' heq
  obtain ⟨hr, hlog⟩ := acts log s
  rw [heq] at hr hlog
  cases hr
  cases same
  rcases hc : place.node.check fuel value (place.scope (.ofContext context)) ({}, ()) with
    ⟨r, trial, t⟩
  obtain ⟨hr, htrial⟩ := acts' {} ()
  rw [hc] at hr htrial
  cases hr
  have ended : (place.validate fuel (.ofContext context) value ()).1 = .ok trial := by
    rw [validate, Check.trial_apply hc]
    rfl
  obtain ⟨current, adds⟩ := LogStep.runAll_adds steps log
  dsimp only at hlog htrial
  rw [hlog]
  refine ⟨trivial, current, fun entry mem => ((adds entry).mp mem).imp_right ?_⟩
  rintro ⟨note, written, rfl⟩
  refine ⟨note.1.segments, rfl, trial, ended, ?_⟩
  rw [htrial]
  exact LogStep.mem_report_runAll.mpr written

end SchemaCast
