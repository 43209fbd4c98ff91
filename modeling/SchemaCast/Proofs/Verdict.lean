import SchemaCast.Proofs.Determinacy
import SchemaCast.Proofs.Satisfaction

/-!
# What the log of a check tells

A check that comes to a result leaves an empty log behind exactly if it started from one and some
property holds. `Check.Tells` states that, together with what is known of the result, and has one
rule for each operation checks are made of. Lists of violations are empty exactly if the rules they
are about are followed.
-/
namespace SchemaCast

variable {σ α β : Type}

/-- Every result of a check is as stated, and nothing is recorded exactly if a property holds. -/
def Check.Tells (c : Check σ α) (Q : α → Prop) (P : Prop) : Prop :=
  ∀ log s a log' s', c (log, s) = (.ok a, log', s') → Q a ∧ (log'.isEmpty ↔ log.isEmpty ∧ P)

theorem ErrorLog.isEmpty_record (log : ErrorLog) (message : String) :
    (log.record message).isEmpty = false := by
  unfold ErrorLog.isEmpty ErrorLog.record
  cases log.groups with
  | nil => rfl
  | cons group rest =>
    dsimp only [ErrorLog.addTo]
    split <;> rfl

theorem Scope.gives_target {context : Context} (stack : List Definitions) (name : String) :
    ((⟨.ofContext context, stack⟩ : Scope σ).target name).Gives fun found =>
      ∃ target, context.place? stack name = some target ∧
        found = (target.node, target.scope (.ofContext context)) := by
  rw [Scope.target_ofContext]
  cases leads : context.place? stack name with
  | some target => exact .pure ⟨target, rfl, rfl⟩
  | none => exact .broken trivial

namespace Check.Tells

variable {P R : Prop} {Q : α → Prop}

theorem congr {c : Check σ α} (h : c.Tells Q P) (same : P ↔ R) : c.Tells Q R := by
  rwa [← propext same]

theorem pure {a : α} (h : Q a) : Tells (Pure.pure a : Check σ α) Q True := by
  intro log s a' log' s' heq
  cases heq
  exact ⟨h, by simp⟩

theorem bind {Q' : β → Prop} {c : Check σ α} {f : α → Check σ β} (hc : c.Tells Q P)
    (hf : ∀ a, Q a → (f a).Tells Q' R) : Tells (c >>= f) Q' (P ∧ R) := by
  intro log s b log'' s'' heq
  obtain ⟨a, ⟨log', s'⟩, ha, hb⟩ := Run.bind_eq_ok heq
  obtain ⟨hq, hlog'⟩ := hc log s a log' s' ha
  obtain ⟨hq', hlog''⟩ := hf a hq log' s' b log'' s'' hb
  exact ⟨hq', by rw [hlog'', hlog', and_assoc]⟩

theorem seq {Q' : β → Prop} {c : Check σ Unit} {d : Check σ β} (hc : c.Tells (fun _ => True) P)
    (hd : d.Tells Q' R) : Tells (c >>= fun _ => d) Q' (P ∧ R) := bind hc fun _ _ => hd

theorem ofRun {x : Run σ α} (h : x.Gives Q) : Tells (Check.ofRun x) Q True := by
  intro log s a log' s' heq
  rcases hx : x s with ⟨r, t⟩
  rw [Check.ofRun_apply log hx] at heq
  cases heq
  exact ⟨(h s trivial).2.1 a (by rw [hx]), by simp⟩

theorem record (violation : Violation) :
    Tells (Check.record violation : Check σ Unit) (fun _ => True) False := by
  rintro log s a _ _ ⟨⟩
  simp [ErrorLog.isEmpty_record]

theorem recordIf (condition : Bool) (violation : Violation) :
    Tells (Check.recordIf condition violation : Check σ Unit) (fun _ => True)
      (condition = false) := by
  unfold Check.recordIf
  cases condition
  · exact (pure trivial).congr (by simp)
  · exact (record violation).congr (by simp)

theorem within {c : Check σ α} (segment : Segment) (h : c.Tells Q P) :
    Tells (Check.within segment c) Q P := by
  intro log s a log' s' heq
  rcases hc : c (log.enter segment, s) with ⟨r, inner, t⟩
  rw [Check.within_apply hc] at heq
  cases heq
  exact h (log.enter segment) s a inner s' hc

theorem forM {γ : Type} {f : γ → Check σ Unit} {P : γ → Prop} (items : List γ)
    (h : ∀ item ∈ items, (f item).Tells (fun _ => True) (P item)) :
    Tells (items.forM f) (fun _ => True) (∀ item ∈ items, P item) := by
  induction items with
  | nil => exact (pure trivial).congr (by simp)
  | cons item rest ih =>
    refine (seq (h item (by simp)) (ih fun other hother => h other (by simp [hother]))).congr ?_
    simp

theorem recordAll (violations : List Violation) :
    Tells (Check.recordAll violations : Check σ Unit) (fun _ => True) (violations = []) :=
  (forM violations fun violation _ => record violation).congr
    (by simp [List.eq_nil_iff_forall_not_mem])

/-- A trial comes to an empty log exactly if the property holds. -/
theorem trial {c : Check σ Unit} {Q : Unit → Prop} (h : c.Tells Q P) :
    (Check.trial c).Gives fun log => log.isEmpty ↔ P := by
  intro s _
  refine ⟨trivial, fun log hlog => ?_, fun _ _ => trivial⟩
  rcases hc : c ({}, s) with ⟨fault | u, log', s'⟩ <;> rw [Check.trial_apply hc] at hlog <;>
    cases hlog
  have empty : ({} : ErrorLog).isEmpty := rfl
  simpa [empty] using (h {} s u _ s' hc).2

end Check.Tells

/-! ### Lists of violations -/

theorem violationsOf_eq_nil {γ : Type} {option : Option γ} {p : γ → Bool} {f : γ → Violation} :
    ((option.filter p).toList.map f) = [] ↔ ∀ x ∈ option, p x = false := by
  cases option with
  | none => simp
  | some x => cases h : p x <;> simp [Option.filter, h]

theorem StringRules.violations_eq_nil (rules : StringRules) (s : String) :
    rules.violations s = [] ↔ rules.Admits s := by
  simp only [violations, List.append_eq_nil_iff, violationsOf_eq_nil]
  constructor
  · intro h
    obtain ⟨⟨⟨⟨blank, minLength⟩, maxLength⟩, pattern⟩, format⟩ := h
    refine ⟨fun hblank => ?_, fun least h => ?_, fun most h => ?_, fun p h => ?_, fun f h => ?_⟩
    · cases hallow : rules.allowBlank
      · simp [hblank, hallow] at blank
      · rfl
    · simpa using minLength least h
    · simpa using maxLength most h
    · simpa using pattern p h
    · simpa using format f h
  · intro admits
    refine ⟨⟨⟨⟨?_, fun least h => ?_⟩, fun most h => ?_⟩, fun p h => ?_⟩, fun f h => ?_⟩
    · by_cases hblank : Text.isBlank s
      · simp [admits.blank hblank]
      · simp [hblank]
    · simpa using admits.minLength least h
    · simpa using admits.maxLength most h
    · simpa using admits.pattern p h
    · simpa using admits.format f h

namespace NumericRules

theorem numberViolations_eq_nil (rules : NumericRules) (number : Json) :
    rules.numberViolations number = [] ↔ rules.Bounds number := by
  unfold numberViolations
  cases h : number.number? with
  | none =>
    simp only [true_iff]
    constructor <;> simp [h]
  | some x =>
    simp only [List.append_eq_nil_iff, violationsOf_eq_nil]
    constructor
    · intro h
      obtain ⟨⟨⟨⟨minimum, maximum⟩, exclusiveMinimum⟩, exclusiveMaximum⟩, multipleOf⟩ := h
      simp only [Bool.not_eq_eq_eq_not, Bool.not_false] at multipleOf
      constructor <;> simpa [h] using by assumption
    · intro h
      obtain ⟨minimum, maximum, exclusiveMinimum, exclusiveMaximum, multipleOf⟩ := h
      simp only [h, Option.mem_def, Option.some.injEq, forall_eq'] at *
      simp_all

theorem violations_eq_nil (rules : NumericRules) (integer : Bool) (value : Json) :
    rules.violations integer value = [] ↔ rules.Admits integer value := by
  cases value with
  | str s =>
    simp only [violations, Admits]
    split
    · next accepted => simp [accepted, numberViolations_eq_nil]
    · next refused => simp [refused]
  | _ => simp only [violations, Admits, numberViolations_eq_nil]

end NumericRules

theorem Truth.violations_eq_nil (value : Json) :
    Truth.violations value = [] ↔ Truth.Admits value := by
  cases value <;> simp [violations, Admits]

theorem ambiguousKeys_eq_nil (seen keys : List String) :
    ambiguousKeys seen keys = [] ↔
      keys.Pairwise (fun key other => foldKey key ≠ foldKey other) ∧
        ∀ key ∈ keys, foldKey key ∉ seen := by
  induction keys generalizing seen with
  | nil => simp [ambiguousKeys]
  | cons key rest ih =>
    simp only [ambiguousKeys]
    change (if seen.contains (foldKey key) then key :: ambiguousKeys seen rest
      else ambiguousKeys (foldKey key :: seen) rest) = [] ↔ _
    split
    · next known =>
      have : foldKey key ∈ seen := by simpa using known
      simp [this]
    · next new =>
      have : foldKey key ∉ seen := by simpa using new
      rw [ih, List.pairwise_cons]
      constructor
      · intro h
        obtain ⟨distinct, fresh⟩ := h
        refine ⟨⟨fun other mem => ?_, distinct⟩, fun other mem => ?_⟩
        · intro same
          exact fresh other mem (by simp [same])
        · rcases List.mem_cons.mp mem with rfl | mem
          · exact this
          · exact fun h => fresh other mem (by simp [h])
      · intro h
        obtain ⟨⟨differs, distinct⟩, fresh⟩ := h
        refine ⟨distinct, fun other mem => ?_⟩
        rw [List.mem_cons, not_or]
        exact ⟨fun same => differs other mem same.symm, fresh other (by simp [mem])⟩

theorem hasDuplicates_eq_false (items : List Json) :
    hasDuplicates items = false ↔ items.Pairwise fun item other => ¬ other.beq item := by
  induction items with
  | nil => simp [hasDuplicates]
  | cons item rest ih => simp [hasDuplicates, ih]

end SchemaCast
