import SchemaCast.Proofs.Report
import SchemaCast.Proofs.Report.Findings
import SchemaCast.Proofs.Text.Printed

/-!
# Reports within messages

A message may hold the reports of failed alternatives, each behind spaces. As long as no key in a path
has a carriage return, messages and reports are tidy texts at every depth, so that the lines of a
report are found again in the message.
-/
namespace SchemaCast

open Text (NoReturn Tidy)

theorem Kind.noReturn_expected (kind : Kind) : NoReturn kind.expected := by
  have joined (castText : Bool) {name : String} (h : NoReturn name) :
      NoReturn (orString castText name) := by
    have suffix : NoReturn " or string" := by simp [NoReturn]
    unfold orString
    split
    · exact h.append suffix
    · exact h
  cases kind with
  | integer rules => exact joined _ (by simp [NoReturn])
  | number rules => exact joined _ (by simp [NoReturn])
  | boolean castText => exact joined _ (by simp [NoReturn])
  | array rules => exact joined _ (by simp [NoReturn])
  | object classes =>
    have word : NoReturn " or " := by simp [NoReturn]
    refine word.intercalate fun text mem => ?_
    obtain ⟨known, _, rfl⟩ := List.mem_map.mp mem
    cases known <;> simp [NoReturn, ValueKind.name]
  | combination combinator alternatives blankAsNull =>
    cases combinator <;> simp [NoReturn, expected, typeName, Combinator.name]
  | _ => simp [NoReturn, expected, typeName]

/-- The keys of a path have no carriage returns. -/
def Path.lacksReturns (path : Path) : Bool :=
  path.segments.all fun
    | .key name => !name.toList.contains '\r'
    | .index _ => true

/-- The keys in the paths of a log have no carriage returns. -/
def ErrorLog.lacksReturns (log : ErrorLog) : Bool := log.groups.all fun group => group.1.lacksReturns

theorem Path.noReturn_text {path : Path} (h : path.lacksReturns) : NoReturn path.text := by
  have slash : NoReturn "/" := by simp [NoReturn]
  unfold text
  split
  · exact slash
  · refine .join fun text mem => ?_
    obtain ⟨segment, listed, rfl⟩ := List.mem_map.mp mem
    refine slash.append ?_
    have lacks := List.all_eq_true.mp h segment listed
    cases segment with
    | key name => simpa [NoReturn, Segment.text] using lacks
    | index position =>
      have brackets : NoReturn "[" ∧ NoReturn "]" := by simp [NoReturn]
      exact (brackets.1.append (Number.noReturn_intText _)).append brackets.2

namespace ErrorLog

variable {log : ErrorLog}

/-- The report of a log is a tidy text. -/
theorem tidy_render (sound : log.Sound Tidy lacksReturns) (some : ¬ log.isEmpty) :
    Tidy log.render := by
  obtain ⟨fine, lacks⟩ := sound
  have newline : NoReturn "\n" := by simp [NoReturn]
  have colon : NoReturn ": " := by simp [NoReturn]
  have line (text : String) (mem : text ∈ log.lines) : Tidy text := by
    obtain ⟨entry, listed, rfl⟩ := List.mem_map.mp mem
    obtain ⟨messages, grouped, among⟩ := mem_report.mp listed
    have path : NoReturn entry.1.text :=
      Path.noReturn_text (List.all_eq_true.mp lacks _ grouped)
    exact ((fine _ grouped).2 entry.2 among).append (path.append colon)
  rcases List.eq_nil_or_concat log.lines with none | ⟨before, last, whole⟩
  · obtain ⟨group, grouped⟩ := List.exists_mem_of_ne_nil log.groups (by simpa [isEmpty] using some)
    obtain ⟨message, among⟩ := List.exists_mem_of_ne_nil _ (fine group grouped).1
    have listed : (group.1, message) ∈ log.report := mem_report.mpr ⟨group.2, grouped, among⟩
    exact absurd (List.mem_map_of_mem listed) (by rw [← lines, none]; exact List.not_mem_nil)
  · rw [List.concat_eq_append] at whole
    rw [render, whole]
    exact Tidy.intercalate newline (fun text mem => (line text (by simp [whole, mem])).noReturn)
      (line last (by simp [whole]))

end ErrorLog

namespace Violation

theorem failuresText_cons (failure : Nat × ErrorLog) (rest : List (Nat × ErrorLog)) :
    failuresText (failure :: rest) = "\n  - Condition " ++ countText (failure.1 + 1) ++ ":\n" ++
      failure.2.renderNested 4 ++ failuresText rest := by
  simp [failuresText]

/-- The reports of failed alternatives end tidily. -/
theorem tidy_failuresText {head : String} (tidy : Tidy head) (failures : List (Nat × ErrorLog))
    (h : ∀ failure ∈ failures, failure.2.Sound Tidy ErrorLog.lacksReturns ∧ ¬ failure.2.isEmpty) :
    Tidy (head ++ failuresText failures) := by
  induction failures generalizing head with
  | nil => simpa [failuresText, String.join] using tidy
  | cons failure rest ih =>
    obtain ⟨⟨sound, some⟩, others⟩ := List.forall_mem_cons.mp h
    have block : Tidy (failure.2.renderNested 4) := (ErrorLog.tidy_render sound some).indentLines 4
    have count : NoReturn (countText (failure.1 + 1)) := Number.noReturn_intText _
    have label : NoReturn ("\n  - Condition " ++ countText (failure.1 + 1) ++ ":\n") := by
      simp [count]
      simp [NoReturn]
    have first := (block.append label).append tidy.noReturn
    rw [failuresText_cons, ← String.append_assoc]
    exact ih first others

theorem tidy_message {violation : Violation}
    (arises : violation.Arises fun log => log.Sound Tidy ErrorLog.lacksReturns) :
    Tidy violation.message := by
  have sentence {text : String} (h : NoReturn text) : Tidy (text ++ ".") :=
    .append h (.of_stop (by simp [NoReturn]) (by simp))
  have count (n : Nat) : '\r' ∉ (countText n).toList := Number.noReturn_intText n
  have bound (x : Number.Exact) : '\r' ∉ (boundText x).toList := Number.noReturn_text _ x
  have name (s : String) : '\r' ∉ (Text.quoted s).toList := Text.noReturn_quoted s
  have names (keys : List String) : '\r' ∉ (Text.quotedList keys).toList :=
    Text.noReturn_quotedList keys
  have data (value : Json) : '\r' ∉ value.render.toList := value.noReturn_render
  cases violation with
  | wrongType expected =>
    obtain ⟨kind, rfl⟩ := arises
    have type : '\r' ∉ kind.expected.toList := kind.noReturn_expected
    exact sentence (by simp [NoReturn, type])
  | notAll matched total failures | notAny total failures | notOne matched total failures =>
    refine tidy_failuresText (.append ?_ (.of_stop ?_ ?_)) failures arises
    all_goals simp [NoReturn, count]
  | valueMissing =>
    change Tidy "Value must be given."
    exact .of_stop (by simp [NoReturn]) (by simp)
  | keyMissing =>
    change Tidy "Key must be given."
    exact .of_stop (by simp [NoReturn]) (by simp)
  | blankString =>
    change Tidy "String is blank but must not be blank."
    exact .of_stop (by simp [NoReturn]) (by simp)
  | notTruthText =>
    change Tidy "String must be \"true\" or \"false\"."
    exact .of_stop (by simp [NoReturn]) (by simp)
  | invalidJson =>
    change Tidy "String does not contain valid JSON."
    exact .of_stop (by simp [NoReturn]) (by simp)
  | duplicateItems =>
    change Tidy "Array has duplicate items."
    exact .of_stop (by simp [NoReturn]) (by simp)
  | dependencyMissing target source =>
    refine .append ?_ (.of_stop (by simp [NoReturn]) (by simp) : Tidy " is given.")
    simp [NoReturn, name]
  | _ =>
    refine sentence ?_
    simp [NoReturn, count, bound, name, names, data]

end Violation

end SchemaCast
