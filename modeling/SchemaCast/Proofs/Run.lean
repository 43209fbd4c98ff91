import SchemaCast.Check

/-!
# How runs end

A run followed by another one either goes on from the state it has reached, or ends with its
fault. Checks are runs whose state holds a log, so the same equations serve for them. `Run.Holds`
states what a run keeps, what it comes to and which faults it may end with.
-/
namespace SchemaCast

variable {σ α β : Type}

namespace Run

theorem bind_ok {x : Run σ α} {f : α → Run σ β} {s s' : σ} {a : α} (h : x s = (.ok a, s')) :
    (x >>= f) s = f a s' := by
  change (StateT.bind (m := Id) x (ExceptT.bindCont f)) s = _
  simp only [StateT.bind, h]
  rfl

theorem bind_error {x : Run σ α} {f : α → Run σ β} {s s' : σ} {fault : Fault}
    (h : x s = (.error fault, s')) : (x >>= f) s = (.error fault, s') := by
  change (StateT.bind (m := Id) x (ExceptT.bindCont f)) s = _
  simp only [StateT.bind, h]
  rfl

/-- What a run that comes to a result has done first. -/
theorem bind_eq_ok {x : Run σ α} {f : α → Run σ β} {s s'' : σ} {b : β}
    (h : (x >>= f) s = (.ok b, s'')) : ∃ a s', x s = (.ok a, s') ∧ f a s' = (.ok b, s'') := by
  rcases hx : x s with ⟨fault | a, s'⟩
  · rw [bind_error hx] at h
    cases h
  · rw [bind_ok hx] at h
    exact ⟨a, s', rfl, h⟩

/-- Started in a state with a property, a run ends in one, with a result or a fault as stated. -/
def Holds (x : Run σ α) (Q : σ → Prop) (E : Fault → Prop) (V : α → Prop) : Prop :=
  ∀ s, Q s → Q (x s).2 ∧ (∀ a, (x s).1 = .ok a → V a) ∧ ∀ fault, (x s).1 = .error fault → E fault

namespace Holds

variable {Q : σ → Prop} {E : Fault → Prop} {V : α → Prop} {W : β → Prop}

theorem pure {a : α} (h : V a) : Holds (Pure.pure a : Run σ α) Q E V := by
  intro s hs
  refine ⟨hs, ?_, fun fault hfault => by cases hfault⟩
  rintro _ ⟨⟩
  exact h

theorem broken {error : SchemaError} (h : E (.schema error)) :
    Holds (Run.broken error : Run σ α) Q E V := by
  intro s hs
  refine ⟨hs, fun a ha => (by cases ha), ?_⟩
  rintro _ ⟨⟩
  exact h

theorem exhausted (h : E .exhausted) : Holds (Run.exhausted : Run σ α) Q E V := by
  intro s hs
  refine ⟨hs, fun a ha => (by cases ha), ?_⟩
  rintro _ ⟨⟩
  exact h

theorem bind {x : Run σ α} {f : α → Run σ β} (hx : x.Holds Q E V)
    (hf : ∀ a, V a → (f a).Holds Q E W) : Holds (x >>= f) Q E W := by
  intro s hs
  obtain ⟨hs', values, faults⟩ := hx s hs
  rcases h : x s with ⟨fault | a, s'⟩
  · rw [Run.bind_error h]
    rw [h] at hs' faults
    refine ⟨hs', fun b hb => (by cases hb), ?_⟩
    rintro _ ⟨⟩
    exact faults fault rfl
  · rw [Run.bind_ok h]
    rw [h] at hs' values
    exact hf a (values a rfl) s' hs'

theorem imp {x : Run σ α} {V' : α → Prop} (h : x.Holds Q E V) (himp : ∀ a, V a → V' a) :
    x.Holds Q E V' := by
  intro s hs
  obtain ⟨hs', values, faults⟩ := h s hs
  exact ⟨hs', fun a ha => himp a (values a ha), faults⟩

theorem faults {x : Run σ α} {E' : Fault → Prop} (h : x.Holds Q E V)
    (himp : ∀ fault, E fault → E' fault) : x.Holds Q E' V := by
  intro s hs
  obtain ⟨hs', values, faults⟩ := h s hs
  exact ⟨hs', values, fun fault hfault => himp fault (faults fault hfault)⟩

end Holds

/-- Every result of a run is as stated. -/
def Gives (x : Run σ α) (V : α → Prop) : Prop := x.Holds (fun _ => True) (fun _ => True) V

theorem Holds.and_gives {x : Run σ α} {Q : σ → Prop} {E : Fault → Prop} {V W : α → Prop}
    (h : x.Holds Q E V) (gives : x.Gives W) : x.Holds Q E fun a => V a ∧ W a := by
  intro s hs
  obtain ⟨hs', values, faults⟩ := h s hs
  exact ⟨hs', fun a ha => ⟨values a ha, (gives s trivial).2.1 a ha⟩, faults⟩

end Run

namespace Check

theorem ofRun_apply {x : Run σ α} {s s' : σ} {r : Except Fault α} (log : ErrorLog)
    (h : x s = (r, s')) : Check.ofRun x (log, s) = (r, log, s') := by
  simp only [Check.ofRun, h]

theorem within_apply {c : Check σ α} {segment : Segment} {log log' : ErrorLog} {s s' : σ}
    {r : Except Fault α} (h : c (log.enter segment, s) = (r, log', s')) :
    Check.within segment c (log, s) = (r, log'.leave, s') := by
  simp only [Check.within, h]

theorem trial_apply {c : Check σ Unit} {log : ErrorLog} {s s' : σ} {r : Except Fault Unit}
    (h : c ({}, s) = (r, log, s')) : Check.trial c s = (r.map fun _ => log, s') := by
  simp only [Check.trial, h]

/-- A trial comes to a log exactly if the check comes to a result on an empty one. -/
theorem trial_eq_ok {c : Check σ Unit} {log : ErrorLog} {s s' : σ} :
    Check.trial c s = (.ok log, s') ↔ c ({}, s) = (.ok (), log, s') := by
  rcases hc : c ({}, s) with ⟨fault | u, log', t⟩ <;> rw [trial_apply hc]
  · exact ⟨fun h => (by cases h), fun h => by cases h⟩
  · exact ⟨fun h => (by cases h; rfl), fun h => by cases h; rfl⟩

/-- Messages one after the other change the log and nothing else. -/
theorem forM_record (violation : α → Violation) (items : List α) (log : ErrorLog) (s : σ) :
    (items.forM fun item => Check.record (violation item)) (log, s) =
      (.ok (), items.foldl (fun log item => log.record (violation item).message) log, s) := by
  induction items generalizing log with
  | nil => rfl
  | cons item rest ih => exact ih _

end Check

/-- Two results of runs are the same: one fault, or values that are related. -/
inductive SameResult (V : α → β → Prop) : Except Fault α → Except Fault β → Prop where
  | ok {a : α} {b : β} (h : V a b) : SameResult V (.ok a) (.ok b)
  | error (fault : Fault) : SameResult V (.error fault) (.error fault)

theorem SameResult.imp {V W : α → β → Prop} {r : Except Fault α} {r' : Except Fault β}
    (h : SameResult V r r') (himp : ∀ a b, V a b → W a b) : SameResult W r r' := by
  cases h with
  | ok h => exact .ok (himp _ _ h)
  | error fault => exact .error fault

theorem SameResult.eq {r r' : Except Fault α} (h : SameResult Eq r r') : r = r' := by
  cases h with
  | ok h => rw [h]
  | error fault => rfl

end SchemaCast
