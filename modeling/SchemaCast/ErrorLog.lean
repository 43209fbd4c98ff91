import SchemaCast.Entries
import SchemaCast.Path
import SchemaCast.Text.Lines

/-!
# The log of a validation

Messages are recorded at the current path and grouped by path: a path takes its place when its
first message arrives, and later messages join it there. `within` works below a segment and always
comes back. The report lists the messages group by group, each as `path: message`.
-/
namespace SchemaCast

/-- Messages grouped by the path they were recorded at. -/
structure ErrorLog where
  /-- Where the next message is recorded. -/
  current : Path := .root
  /-- The messages of each path, in order of their first message. -/
  groups : List (Path × List String) := []
  deriving DecidableEq, Repr

namespace ErrorLog

/-- Put a message into the group of a path. -/
def addTo (path : Path) (message : String) :
    List (Path × List String) → List (Path × List String)
  | [] => [(path, [message])]
  | (place, messages) :: rest =>
    if place = path then (place, messages ++ [message]) :: rest
    else (place, messages) :: addTo path message rest

/-- Record a message at the current path. -/
def record (log : ErrorLog) (message : String) : ErrorLog :=
  { log with groups := addTo log.current message log.groups }

/-- Go one segment further in. -/
def enter (log : ErrorLog) (segment : Segment) : ErrorLog :=
  { log with current := log.current.push segment }

/-- Go one segment back out. -/
def leave (log : ErrorLog) : ErrorLog := { log with current := log.current.pop }

/-- Work below a segment. -/
def within (log : ErrorLog) (segment : Segment) (work : ErrorLog → ErrorLog) : ErrorLog :=
  (work (log.enter segment)).leave

/-- Whether nothing has been recorded. -/
def isEmpty (log : ErrorLog) : Bool := log.groups.isEmpty

/-- The number of messages. -/
def count (log : ErrorLog) : Nat :=
  log.groups.foldr (fun group count => group.2.length + count) 0

/-- The groups by the text of their path. Of two paths with one text the later one gives the
messages. -/
def byText (log : ErrorLog) : Entries (List String) :=
  Entries.ofPairs (log.groups.map fun group => (group.1.text, group.2))

/-- The messages of the first path with a text. -/
def messagesAt (log : ErrorLog) (text : String) : List String :=
  ((log.groups.find? fun group => group.1.text = text).map Prod.snd).getD []

/-- All messages with their paths, group by group. -/
def report (log : ErrorLog) : List (Path × String) :=
  log.groups.flatMap fun group => group.2.map fun message => (group.1, message)

/-- The lines of the report. -/
def lines (log : ErrorLog) : List String :=
  log.report.map fun entry => entry.1.text ++ ": " ++ entry.2

/-- The report as one text. -/
def render (log : ErrorLog) : String := "\n".intercalate log.lines

/-- The report with every line behind `indent` spaces. -/
def renderNested (log : ErrorLog) (indent : Nat) : String := Text.indentLines indent log.render

@[simp] theorem leave_enter (log : ErrorLog) (segment : Segment) :
    (log.enter segment).leave = log := by
  simp [enter, leave]

@[simp] theorem current_record (log : ErrorLog) (message : String) :
    (log.record message).current = log.current := rfl

@[simp] theorem groups_enter (log : ErrorLog) (segment : Segment) :
    (log.enter segment).groups = log.groups := rfl

@[simp] theorem groups_leave (log : ErrorLog) : log.leave.groups = log.groups := rfl

end ErrorLog

/-- What can be done to a log: record a message, or work below a segment. -/
inductive LogStep where
  | record (message : String)
  | within (segment : Segment) (body : List LogStep)

namespace LogStep

mutual

/-- The log after a step. -/
def run : LogStep → ErrorLog → ErrorLog
  | .record message, log => log.record message
  | .within segment body, log => log.within segment (runAll body)

/-- The log after steps in a row. -/
def runAll : List LogStep → ErrorLog → ErrorLog
  | [], log => log
  | step :: rest, log => runAll rest (run step log)

end

mutual

/-- The logs that are seen during a step: after each message, and below and after each segment. -/
def seen : LogStep → ErrorLog → List ErrorLog
  | .record message, log => [log.record message]
  | .within segment body, log =>
    let inner := log.enter segment
    inner :: seenAll body inner ++ [(runAll body inner).leave]

/-- The logs that are seen during steps in a row. -/
def seenAll : List LogStep → ErrorLog → List ErrorLog
  | [], _ => []
  | step :: rest, log => seen step log ++ seenAll rest (run step log)

end

end LogStep

end SchemaCast
