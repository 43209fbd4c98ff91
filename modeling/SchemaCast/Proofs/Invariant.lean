import SchemaCast.Proofs.Run
import SchemaCast.Proofs.Simulation.Casting

/-!
# What traversals keep

A predicate of the state that every look-up of a name keeps is kept by whole validations and
casts, and the errors they break off with are those that look-ups break off with.
-/
namespace SchemaCast

variable {σ τ : Type}

/-- Runs and checks that keep a predicate of the state and end with certain faults only. The other
side is not looked at. -/
def keeps (τ : Type) (Q : σ → Prop) (E : Fault → Prop) : Simulation σ τ where
  run V x _ := x.Holds Q E fun a => ∃ b, V a b
  check V c _ := Run.Holds (σ := ErrorLog × σ) c (fun state => Q state.2) E fun a => ∃ b, V a b
  run_pure h := .pure ⟨_, h⟩
  run_bind h hf := .bind h fun _ ⟨_, hab⟩ => hf _ _ hab
  run_trial {c d} h := by
    intro s hs
    obtain ⟨hs', _, faults⟩ := h ({}, s) hs
    rcases hc : c ({}, s) with ⟨fault | u, log, s'⟩ <;> rw [hc] at hs' faults <;>
      rw [Check.trial_apply hc]
    · refine ⟨hs', fun a ha => (by cases ha), fun fault hfault => ?_⟩
      cases hfault
      exact faults _ rfl
    · exact ⟨hs', fun log' _ => ⟨log', rfl⟩, fun fault hfault => by cases hfault⟩
  check_pure h := .pure ⟨_, h⟩
  check_bind h hf := .bind h fun _ ⟨_, hab⟩ => hf _ _ hab
  check_ofRun {α β V x y} h := by
    rintro ⟨log, s⟩ hs
    rw [Check.ofRun_apply log (rfl : x s = (_, _))]
    exact h s hs
  check_record violation _ hs := ⟨hs, fun _ _ => ⟨(), trivial⟩, fun _ hfault => by cases hfault⟩
  check_within {α β V c d} segment h := by
    rintro ⟨log, s⟩ hs
    rw [Check.within_apply (rfl : c (log.enter segment, s) = (_, _, _))]
    exact h (log.enter segment, s) hs

theorem serves_keeps {Q : σ → Prop} {E : Fault → Prop} {context : Context} {place : Place}
    (errors : ∀ error, place.DeadEnd context error → E (.schema error)) :
    (keeps σ Q E).Serves context (.ofContext context) (.ofContext context) place :=
  (keeps σ Q E).serves_ofContext fun deadEnd => .broken (errors _ deadEnd)

/-- With a context alone nothing that a traversal does changes the state. -/
theorem serves_free {Q : σ → Prop} {context : Context} {place : Place} :
    (keeps σ Q fun _ => True).Serves context (.ofContext context) (.ofContext context) place :=
  serves_keeps fun _ _ => trivial

namespace Place

variable {context : Context} {place : Place}

theorem validate_keeps (place : Place) (fuel : Nat) (value : Json) (Q : σ → Prop) :
    (place.validate fuel (.ofContext context) value).Holds Q (fun _ => True) fun _ => True :=
  ((keeps σ Q _).validate_related (fun _ _ _ _ => trivial) (fun _ _ => serves_free)
    (.exhausted trivial) fuel place trivial value).imp fun _ _ => trivial

/-- A reason to break off with an error lies at some place that can be reached. -/
def CanBreak (context : Context) (place : Place) (error : SchemaError) : Prop :=
  ∃ used, place.Reaches context used ∧ used.DeadEnd context error

/-- A fault that a run from a place may end with. -/
def MayFault (context : Context) (place : Place) (fault : Fault) : Prop :=
  ∀ error, fault = .schema error → place.CanBreak context error

theorem serves_mayFault {used : Place} (reached : place.Reaches context used) :
    (keeps σ (fun _ : σ => True) (place.MayFault context)).Serves context (.ofContext context)
      (.ofContext context) used :=
  serves_keeps fun _ deadEnd _ same => by cases same; exact ⟨used, reached, deadEnd⟩

theorem mayFault_exhausted : place.MayFault context .exhausted := fun _ same => by cases same

/-- A validation only breaks off for a reason that lies at some place that can be reached. -/
theorem canBreak_of_validate {fuel : Nat} {value : Json} {s : σ} {error : SchemaError}
    (h : (place.validate fuel (.ofContext context) value s).1 = .error (.schema error)) :
    place.CanBreak context error := by
  have kept := (keeps σ (fun _ : σ => True) (place.MayFault context)).validate_related
    (fun _ _ reached step => Relation.ReflTransGen.tail reached step)
    (fun _ reached => serves_mayFault reached) (.exhausted mayFault_exhausted)
    fuel place .refl value
  exact (kept s trivial).2.2 _ h error rfl

/-- A cast only breaks off for a reason that lies at some place that can be reached. -/
theorem canBreak_of_cast {fuel : Nat} {value : Json} {s : σ} {error : SchemaError}
    (h : (place.cast fuel (.ofContext context) value s).1 = .error (.schema error)) :
    place.CanBreak context error := by
  have kept := (keeps σ (fun _ : σ => True) (place.MayFault context)).cast_related
    (fun _ _ reached step => Relation.ReflTransGen.tail reached step)
    (fun _ reached => serves_mayFault reached) (.exhausted mayFault_exhausted)
    fuel place .refl value
  exact (kept s trivial).2.2 _ h error rfl

end Place

end SchemaCast
