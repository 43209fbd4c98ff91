import SchemaCast.Proofs.Run
import SchemaCast.Proofs.Simulation.Casting

/-!
# What a traversal depends on

With a context alone a traversal depends on the schema and the value only: neither on the state of
a registry nor on the log it writes to. A check takes a fixed list of steps on every log, so that
a trial of its own finds the same as a check in the middle of a validation.
-/
namespace SchemaCast

namespace LogStep

theorem runAll_append (first second : List LogStep) (log : ErrorLog) :
    runAll (first ++ second) log = runAll second (runAll first log) := by
  induction first generalizing log with
  | nil => rfl
  | cons step rest ih => exact ih (run step log)

end LogStep

variable {σ τ : Type}

/-- A run has a result that does not depend on the state. -/
def Run.Yields {α : Type} (x : Run σ α) (r : Except Fault α) : Prop := ∀ s, (x s).1 = r

/-- A check has a result, and takes steps on the log, that depend on neither log nor state. -/
def Check.Acts {α : Type} (c : Check σ α) (r : Except Fault α) (steps : List LogStep) : Prop :=
  ∀ log s, (c (log, s)).1 = r ∧ (c (log, s)).2.1 = LogStep.runAll steps log

section Bind

variable {α β : Type} {a : α} {fault : Fault}

theorem Run.Yields.bind_ok {x : Run σ α} {f : α → Run σ β} {r : Except Fault β}
    (hx : x.Yields (.ok a)) (hf : (f a).Yields r) : Run.Yields (x >>= f) r := by
  intro s
  rw [Run.bind_ok (Prod.ext (hx s) rfl : x s = (.ok a, _))]
  exact hf _

theorem Run.Yields.bind_error {x : Run σ α} {f : α → Run σ β} (hx : x.Yields (.error fault)) :
    Run.Yields (x >>= f) (.error fault) := by
  intro s
  rw [Run.bind_error (Prod.ext (hx s) rfl : x s = (.error fault, _))]

theorem Check.Acts.bind_ok {c : Check σ α} {f : α → Check σ β} {r : Except Fault β}
    {first second : List LogStep} (hc : c.Acts (.ok a) first) (hf : (f a).Acts r second) :
    Check.Acts (c >>= f) r (first ++ second) := by
  intro log s
  obtain ⟨hr, hlog⟩ := hc log s
  rw [Run.bind_ok (Prod.ext hr rfl : c (log, s) = (.ok a, _)), LogStep.runAll_append, ← hlog]
  exact hf _ _

theorem Check.Acts.bind_error {c : Check σ α} {f : α → Check σ β} {steps : List LogStep}
    (hc : c.Acts (.error fault) steps) : Check.Acts (c >>= f) (.error fault) steps := by
  intro log s
  obtain ⟨hr, hlog⟩ := hc log s
  rw [Run.bind_error (Prod.ext hr rfl : c (log, s) = (.error fault, _))]
  exact ⟨rfl, hlog⟩

end Bind

/-- Runs over two states that have one result, and checks that also take the same steps. -/
def alike (σ τ : Type) : Simulation σ τ where
  run V x y := ∃ r r', SameResult V r r' ∧ x.Yields r ∧ y.Yields r'
  check V c d := ∃ r r' steps, SameResult V r r' ∧ c.Acts r steps ∧ d.Acts r' steps
  run_pure {α β V a b} h := ⟨.ok a, .ok b, .ok h, fun _ => rfl, fun _ => rfl⟩
  run_bind {α β γ δ V W x y f g} h hf := by
    obtain ⟨_, _, same, hx, hy⟩ := h
    cases same with
    | ok hab =>
      obtain ⟨r, r', same, hfa, hgb⟩ := hf _ _ hab
      exact ⟨r, r', same, hx.bind_ok hfa, hy.bind_ok hgb⟩
    | error fault => exact ⟨_, _, .error fault, hx.bind_error, hy.bind_error⟩
  run_trial {c d} h := by
    obtain ⟨r, r', steps, same, hc, hd⟩ := h
    refine ⟨r.map fun _ => LogStep.runAll steps {}, r'.map fun _ => LogStep.runAll steps {},
      ?_, fun s => ?_, fun t => ?_⟩
    · cases same with
      | ok _ => exact .ok rfl
      | error fault => exact .error fault
    · obtain ⟨hr, hlog⟩ := hc {} s
      rw [Check.trial_apply (Prod.ext hr (Prod.ext hlog rfl) : c ({}, s) = (r, _, _))]
    · obtain ⟨hr, hlog⟩ := hd {} t
      rw [Check.trial_apply (Prod.ext hr (Prod.ext hlog rfl) : d ({}, t) = (r', _, _))]
  check_pure {α β V a b} h :=
    ⟨.ok a, .ok b, [], .ok h, fun _ _ => ⟨rfl, rfl⟩, fun _ _ => ⟨rfl, rfl⟩⟩
  check_bind {α β γ δ V W c d f g} h hf := by
    obtain ⟨_, _, first, same, hc, hd⟩ := h
    cases same with
    | ok hab =>
      obtain ⟨r, r', second, same, hfa, hgb⟩ := hf _ _ hab
      exact ⟨r, r', first ++ second, same, hc.bind_ok hfa, hd.bind_ok hgb⟩
    | error fault => exact ⟨_, _, first, .error fault, hc.bind_error, hd.bind_error⟩
  check_ofRun {α β V x y} h := by
    obtain ⟨r, r', same, hx, hy⟩ := h
    refine ⟨r, r', [], same, fun log s => ?_, fun log t => ?_⟩
    · rw [Check.ofRun_apply log (Prod.ext (hx s) rfl : x s = (r, _))]
      exact ⟨rfl, rfl⟩
    · rw [Check.ofRun_apply log (Prod.ext (hy t) rfl : y t = (r', _))]
      exact ⟨rfl, rfl⟩
  check_record violation :=
    ⟨.ok (), .ok (), [.record violation.message], .ok trivial, fun _ _ => ⟨rfl, rfl⟩,
      fun _ _ => ⟨rfl, rfl⟩⟩
  check_within {α β V c d} segment h := by
    obtain ⟨r, r', steps, same, hc, hd⟩ := h
    refine ⟨r, r', [.within segment steps], same, fun log s => ?_, fun log t => ?_⟩
    · obtain ⟨hr, hlog⟩ := hc (log.enter segment) s
      rw [Check.within_apply (Prod.ext hr (Prod.ext hlog rfl) :
        c (log.enter segment, s) = (r, _, _))]
      exact ⟨rfl, rfl⟩
    · obtain ⟨hr, hlog⟩ := hd (log.enter segment) t
      rw [Check.within_apply (Prod.ext hr (Prod.ext hlog rfl) :
        d (log.enter segment, t) = (r', _, _))]
      exact ⟨rfl, rfl⟩

variable {context : Context}

theorem serves_alike (place : Place) :
    (alike σ τ).Serves context (.ofContext context) (.ofContext context) place :=
  (alike σ τ).serves_ofContext fun {_ _ _ error} _ =>
    ⟨_, _, .error (.schema error), fun _ => rfl, fun _ => rfl⟩

theorem exhausted_alike {α β : Type} {V : α → β → Prop} :
    (alike σ τ).run V Run.exhausted Run.exhausted :=
  ⟨_, _, .error .exhausted, fun _ => rfl, fun _ => rfl⟩

theorem check_alike (place : Place) (fuel : Nat) (value : Json) :
    (alike σ τ).check (fun _ _ => True)
      (place.node.check fuel value (place.scope (.ofContext context)))
      (place.node.check fuel value (place.scope (.ofContext context))) :=
  (alike σ τ).check_related (fun _ _ _ _ => trivial) (fun place _ => serves_alike place)
    exhausted_alike fuel place trivial value

theorem cast_alike (place : Place) (fuel : Nat) (value : Json) :
    (alike σ τ).run Eq (place.cast fuel (.ofContext context) value)
      (place.cast fuel (.ofContext context) value) :=
  (alike σ τ).cast_related (fun _ _ _ _ => trivial) (fun place _ => serves_alike place)
    exhausted_alike fuel place trivial value

theorem alike_eq {α : Type} {x : Run σ α} {y : Run τ α} (h : (alike σ τ).run Eq x y) (s : σ)
    (t : τ) : (x s).1 = (y t).1 := by
  obtain ⟨r, r', same, hx, hy⟩ := h
  rw [hx s, hy t, same.eq]

namespace Place

/-- The result of a check depends neither on the log nor on the state of a registry. -/
theorem check_state (place : Place) (fuel : Nat) (value : Json) (log : ErrorLog) (s : σ)
    (log' : ErrorLog) (t : τ) :
    (place.node.check fuel value (place.scope (.ofContext context)) (log, s)).1 =
      (place.node.check fuel value (place.scope (.ofContext context)) (log', t)).1 := by
  have alike : (alike σ τ).check (fun _ _ => True)
      (place.node.check fuel value (place.scope (.ofContext context)))
      (place.node.check fuel value (place.scope (.ofContext context))) :=
    check_alike place fuel value
  obtain ⟨r, r', steps, same, hc, hd⟩ := alike
  rw [(hc log s).1, (hd log' t).1]
  cases same <;> rfl

/-- The result of a validation does not depend on the state of a registry. -/
theorem validate_state (place : Place) (fuel : Nat) (value : Json) (s : σ) (t : τ) :
    (place.validate fuel (.ofContext context) value s).1 =
      (place.validate fuel (.ofContext context) value t).1 :=
  alike_eq ((alike σ τ).run_trial (check_alike place fuel value)) s t

/-- The result of a cast does not depend on the state of a registry. -/
theorem cast_state (place : Place) (fuel : Nat) (value : Json) (s : σ) (t : τ) :
    (place.cast fuel (.ofContext context) value s).1 =
      (place.cast fuel (.ofContext context) value t).1 :=
  alike_eq (cast_alike place fuel value) s t

end Place

end SchemaCast
