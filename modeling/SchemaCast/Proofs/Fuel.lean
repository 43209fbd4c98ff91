import SchemaCast.Proofs.Run
import SchemaCast.Proofs.Simulation.Casting

/-!
# Runs that are not cut off

The bound on the depth of a run only ever cuts it off: a run that comes to an end does so in the
same way under every greater bound. What a schema says about a value is therefore what some bound
shows.
-/
namespace SchemaCast

variable {σ : Type}

/-- One run is cut off, or both runs do the same. -/
def CutOff {α β : Type} (V : α → β → Prop) (x : Run σ α) (y : Run σ β) : Prop :=
  ∀ s, (x s).1 = .error .exhausted ∨ ((x s).2 = (y s).2 ∧ SameResult V (x s).1 (y s).1)

namespace CutOff

variable {α β γ δ : Type} {V : α → β → Prop} {W : γ → δ → Prop}

theorem pure {a : α} {b : β} (h : V a b) :
    CutOff V (Pure.pure a : Run σ α) (Pure.pure b) := fun _ => .inr ⟨rfl, .ok h⟩

theorem bind {x : Run σ α} {y : Run σ β} {f : α → Run σ γ} {g : β → Run σ δ}
    (h : CutOff V x y) (hf : ∀ a b, V a b → CutOff W (f a) (g b)) :
    CutOff W (x >>= f) (y >>= g) := by
  intro s
  rcases hx : x s with ⟨r, s'⟩
  rcases hy : y s with ⟨r', t'⟩
  have hs := h s
  rw [hx, hy] at hs
  rcases hs with cut | ⟨rfl, same⟩
  · cases cut
    rw [Run.bind_error hx]
    exact .inl rfl
  · cases same with
    | ok hab =>
      rw [Run.bind_ok hx, Run.bind_ok hy]
      exact hf _ _ hab s'
    | error fault =>
      rw [Run.bind_error hx, Run.bind_error hy]
      exact .inr ⟨rfl, .error fault⟩

end CutOff

/-- Runs and checks of which the first may be cut off where the second goes on. -/
def cutOff (σ : Type) : Simulation σ σ where
  run V x y := CutOff V x y
  check V c d := CutOff (σ := ErrorLog × σ) V c d
  run_pure := CutOff.pure
  run_bind := CutOff.bind
  run_trial {c d} h s := by
    rcases hc : c ({}, s) with ⟨r, log, s'⟩
    rcases hd : d ({}, s) with ⟨r', log', t'⟩
    have hs := h ({}, s)
    rw [hc, hd] at hs
    rw [Check.trial_apply hc, Check.trial_apply hd]
    rcases hs with cut | ⟨same, hr⟩
    · cases cut
      exact .inl rfl
    · cases same
      cases hr with
      | ok _ => exact .inr ⟨rfl, .ok rfl⟩
      | error fault => exact .inr ⟨rfl, .error fault⟩
  check_pure := CutOff.pure
  check_bind := CutOff.bind
  check_ofRun {α β V x y} h := by
    intro h
    obtain ⟨log, s⟩ := h
    rcases hx : x s with ⟨r, s'⟩
    rcases hy : y s with ⟨r', t'⟩
    have hs := h s
    rw [hx, hy] at hs
    rw [Check.ofRun_apply log hx, Check.ofRun_apply log hy]
    rcases hs with cut | ⟨rfl, hr⟩
    · exact .inl cut
    · exact .inr ⟨rfl, hr⟩
  check_record violation _ := .inr ⟨rfl, .ok trivial⟩
  check_within {α β V c d} segment h := by
    intro h
    obtain ⟨log, s⟩ := h
    rcases hc : c (log.enter segment, s) with ⟨r, log', s'⟩
    rcases hd : d (log.enter segment, s) with ⟨r', log'', t'⟩
    have hs := h (log.enter segment, s)
    rw [hc, hd] at hs
    rw [Check.within_apply hc, Check.within_apply hd]
    rcases hs with cut | ⟨same, hr⟩
    · exact .inl cut
    · cases same
      exact .inr ⟨rfl, hr⟩

section Places

variable {context : Context}

theorem serves_cutOff (place : Place) :
    (cutOff σ).Serves context (.ofContext context) (.ofContext context) place :=
  (cutOff σ).serves_ofContext fun {_ _ _ error} _ _ => .inr ⟨rfl, .error (.schema error)⟩

/-- More fuel only ever turns a check that is cut off into one that is not. -/
theorem check_cutOff (place : Place) (value : Json) {fuel more : Nat} (h : fuel ≤ more) :
    (cutOff σ).check (fun _ _ => True)
      (place.node.check fuel value (place.scope (.ofContext context)))
      (place.node.check more value (place.scope (.ofContext context))) := by
  induction fuel generalizing place value more with
  | zero => exact fun _ => .inl rfl
  | succ fuel ih =>
    obtain ⟨more, rfl⟩ : ∃ n, more = n + 1 := ⟨more - 1, by omega⟩
    exact (cutOff σ).checkWith_related (serves_cutOff place)
      (fun target _ value => ih target value (by omega)) value

/-- More fuel only ever turns a cast that is cut off into one that is not. -/
theorem cast_cutOff (place : Place) (value : Json) {fuel more : Nat} (h : fuel ≤ more) :
    CutOff Eq (place.cast fuel (.ofContext context : Resolver σ) value)
      (place.cast more (.ofContext context) value) := by
  induction fuel generalizing place value more with
  | zero => exact fun _ => .inl rfl
  | succ fuel ih =>
    obtain ⟨more, rfl⟩ : ∃ n, more = n + 1 := ⟨more - 1, by omega⟩
    exact (cutOff σ).castWith_related (serves_cutOff place)
      (fun target _ value => check_cutOff target value (by omega))
      (fun target _ value => ih target value (by omega)) value

theorem CutOff.eq {α : Type} {x y : Run σ α} (h : CutOff Eq x y) {s : σ}
    (ended : (x s).1 ≠ .error .exhausted) : y s = x s := by
  obtain cut | ⟨same, hr⟩ := h s
  · exact absurd cut ended
  · exact (Prod.ext hr.eq same).symm

namespace Place

/-- A validation that comes to an end does so in the same way with more fuel. -/
theorem validate_of_le (place : Place) (value : Json) {fuel more : Nat} (h : fuel ≤ more) {s : σ}
    (ended : (place.validate fuel (.ofContext context) value s).1 ≠ .error .exhausted) :
    place.validate more (.ofContext context) value s =
      place.validate fuel (.ofContext context) value s :=
  CutOff.eq ((cutOff σ).run_trial (check_cutOff place value h)) ended

/-- A cast that comes to an end does so in the same way with more fuel. -/
theorem cast_of_le (place : Place) (value : Json) {fuel more : Nat} (h : fuel ≤ more) {s : σ}
    (ended : (place.cast fuel (.ofContext context) value s).1 ≠ .error .exhausted) :
    place.cast more (.ofContext context) value s =
      place.cast fuel (.ofContext context) value s :=
  CutOff.eq (cast_cutOff place value h) ended

end Place

/-- No bound lets the check by a reference come to an end that leads back to itself. -/
theorem Node.check_of_circular {name : String}
    (circular : context.get? name = some ⟨{}, .reference name⟩) (fuel : Nat) {value : Json}
    (given : value.isNull = false) (log : ErrorLog) (s : σ) :
    (⟨{}, .reference name⟩ : Node).check fuel value ⟨.ofContext context, []⟩ (log, s) =
      (.error .exhausted, log, s) := by
  induction fuel with
  | zero => rfl
  | succ fuel ih =>
    have present : (⟨{}, .reference name⟩ : Node).present value = .ok value := by
      simp [Node.present, Node.seen, given, Kind.accepts]
    have leads : context.place? [] name = some (⟨{}, .reference name⟩ : Node).place := by
      simp [Context.place?, lookupLocal, circular, Node.place]
    have target : Check.ofRun ((⟨.ofContext context, []⟩ : Scope σ).target name) (log, s) =
        (.ok (⟨{}, .reference name⟩, ⟨.ofContext context, []⟩), log, s) := by
      rw [Scope.target_of_leads leads]
      rfl
    have follow : (⟨{}, .reference name⟩ : Node).kind.validate (check fuel) value
        ⟨.ofContext context, []⟩ (log, s) = (.error .exhausted, log, s) :=
      (Run.bind_ok target).trans ih
    rw [check, checkWith, present]
    exact (Run.bind_ok rfl).trans follow

end Places

end SchemaCast
