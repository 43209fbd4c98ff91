import Mathlib.Order.Lattice.Nat
import SchemaCast.Proofs.Determinacy
import SchemaCast.Proofs.Fuel

/-!
# Bounds that are great enough

A traversal asks for finitely many checks and casts of inner values. If each of them comes to an end
under some bound, then one bound is great enough for all of them. To find it, `Node.checkSettled`
and `Node.castSettled` give each inner node the bound that it needs and keep the greatest one of all
as their state: under that bound, and under every greater one, a traversal does what it does with
them.
-/
namespace SchemaCast

variable {σ τ : Type} {context : Context}

/-- The least bound under which a run is not cut off, or zero if all bounds cut it off. -/
noncomputable def leastBound {α : Type} (result : Nat → Except Fault α) : Nat :=
  sInf {bound | result bound ≠ .error .exhausted}

/-- A run that is cut off under the least bound is cut off under all bounds. -/
theorem cut_of_leastBound {α : Type} (result : Nat → Except Fault α)
    (cut : result (leastBound result) = .error .exhausted) (bound : Nat) :
    result bound = .error .exhausted := by
  by_contra uncut
  have least : result (leastBound result) ≠ .error .exhausted :=
    Nat.sInf_mem (s := {bound | result bound ≠ .error .exhausted}) ⟨bound, uncut⟩
  exact least cut

namespace Place

/-- The bound that a validation takes. -/
noncomputable def checkDepth (context : Context) (place : Place) (value : Json) : Nat :=
  leastBound fun bound => (place.validate bound (.ofContext context) value ()).1

/-- The bound that a cast takes. -/
noncomputable def castDepth (context : Context) (place : Place) (value : Json) : Nat :=
  leastBound fun bound => (place.cast bound (.ofContext context) value ()).1

variable {place : Place} {value : Json}

/-- A validation ends with the faults with which the check does on any log. -/
theorem validate_eq_error_iff {bound : Nat} {fault : Fault} (log : ErrorLog) (s : σ) (t : τ) :
    (place.validate bound (.ofContext context) value s).1 = .error fault ↔
      (place.node.check bound value (place.scope (.ofContext context)) (log, t)).1 =
        .error fault := by
  rw [place.check_state bound value log t {} s]
  rcases hc : place.node.check bound value (place.scope (.ofContext context)) ({}, s) with
    ⟨fault' | u, log', s'⟩ <;> rw [validate, Check.trial_apply hc] <;> simp [Except.map]

theorem validate_of_cut_at_checkDepth {s : σ}
    (cut : (place.validate (place.checkDepth context value) (.ofContext context) value s).1 =
      .error .exhausted)
    (bound : Nat) :
    (place.validate bound (.ofContext context) value s).1 = .error .exhausted := by
  rw [place.validate_state _ _ s ()] at cut ⊢
  exact cut_of_leastBound (fun bound => (place.validate bound _ value ()).1) cut bound

/-- The log of a check does not depend on the state of a registry. -/
theorem check_log (bound : Nat) (log : ErrorLog) (s : σ) (t : τ) :
    (place.node.check bound value (place.scope (.ofContext context)) (log, s)).2.1 =
      (place.node.check bound value (place.scope (.ofContext context)) (log, t)).2.1 := by
  have alike : (alike σ τ).check (fun _ _ => True)
      (place.node.check bound value (place.scope (.ofContext context)))
      (place.node.check bound value (place.scope (.ofContext context))) :=
    check_alike place bound value
  obtain ⟨_, _, _, _, hc, hd⟩ := alike
  rw [(hc log s).2, (hd log t).2]

/-- A bound that is not less than the least one makes no difference to a check, but for what is
recorded by one that does not come to an end. -/
theorem check_of_checkDepth_le {bound : Nat} (enough : place.checkDepth context value ≤ bound)
    (log : ErrorLog) (s : σ) :
    let least := place.node.check (place.checkDepth context value) value
      (place.scope (.ofContext context)) (log, s)
    let given := place.node.check bound value (place.scope (.ofContext context)) (log, s)
    least.1 = given.1 ∧ (given.1 ≠ .error .exhausted → least.2 = given.2) := by
  have more : (cutOff σ).check (fun _ _ => True)
      (place.node.check (place.checkDepth context value) value (place.scope (.ofContext context)))
      (place.node.check bound value (place.scope (.ofContext context))) :=
    check_cutOff place value enough
  intro least given
  rcases more (log, s) with cut | ⟨sameState, sameResult⟩
  · have cutAlways : given.1 = .error .exhausted := (validate_eq_error_iff log s s).mp
      (validate_of_cut_at_checkDepth ((validate_eq_error_iff log s s).mpr cut) bound)
    exact ⟨cut.trans cutAlways.symm, fun uncut => absurd cutAlways uncut⟩
  · exact ⟨(sameResult.imp fun _ _ _ => rfl).eq, fun _ => sameState⟩

/-- A bound that is not less than the least one makes no difference to a cast. -/
theorem cast_of_castDepth_le {bound : Nat} (enough : place.castDepth context value ≤ bound)
    (s : σ) : (place.cast bound (.ofContext context) value s).1 =
      (place.cast (place.castDepth context value) (.ofContext context) value s).1 := by
  by_cases cut : (place.cast (place.castDepth context value) (.ofContext context) value s).1 =
      .error .exhausted
  · rw [cut, place.cast_state _ _ s ()]
    rw [place.cast_state _ _ s ()] at cut
    exact cut_of_leastBound (fun bound => (place.cast bound _ value ()).1) cut bound
  · rw [place.cast_of_le value enough cut]

end Place

/-- Check a value against a node within the bound that it takes, and keep the greatest bound. -/
noncomputable def Node.checkSettled (context : Context) : NodeCheck Nat :=
  fun node value scope state =>
    let depth := (⟨node, scope.definitions⟩ : Place).checkDepth context value
    let (result, log, _) := node.check depth value scope state
    (result, log, max state.2 depth)

/-- Cast a value by a node within the bound that it takes, and keep the greatest bound. -/
noncomputable def Node.castSettled (context : Context) : NodeCast Nat :=
  fun node value scope most =>
    let depth := (⟨node, scope.definitions⟩ : Place).castDepth context value
    ((node.castTo depth value scope most).1, max most depth)

/-- Two runs do the same, if the greatest bound that the first one has kept does not exceed a
limit. -/
structure Settles {α β : Type} (kept : τ → Nat) (Same : τ → σ → Prop) (limit : Nat)
    (V : α → β → Prop) (x : Run τ α) (y : Run σ β) : Prop where
  grows : ∀ t, kept t ≤ kept (x t).2 ∧ ∀ a, (x t).1 = .ok a → ∃ b, V a b
  same : ∀ t s, Same t s → kept (x t).2 ≤ limit →
    SameResult (fun a b => V a b ∧ Same (x t).2 (y s).2) (x t).1 (y s).1

namespace Settles

variable {α β γ δ : Type} {kept : τ → Nat} {Same : τ → σ → Prop} {limit : Nat} {V : α → β → Prop}
  {W : γ → δ → Prop}

theorem pure {a : α} {b : β} (h : V a b) :
    Settles kept Same limit V (Pure.pure a) (Pure.pure b) where
  grows t := ⟨Nat.le_refl (kept t), fun _ given => by cases given; exact ⟨b, h⟩⟩
  same _ _ alike _ := .ok ⟨h, alike⟩

theorem broken (error : SchemaError) :
    Settles kept Same limit V (Run.broken error) (Run.broken error) where
  grows t := ⟨Nat.le_refl (kept t), fun _ given => by cases given⟩
  same _ _ _ _ := .error _

theorem bind {x : Run τ α} {y : Run σ β} {f : α → Run τ γ} {g : β → Run σ δ}
    (h : Settles kept Same limit V x y)
    (hf : ∀ a b, V a b → Settles kept Same limit W (f a) (g b)) :
    Settles kept Same limit W (x >>= f) (y >>= g) where
  grows t := by
    obtain ⟨grows, typed⟩ := h.grows t
    rcases hx : x t with ⟨fault | a, t'⟩ <;> rw [hx] at grows typed
    · rw [Run.bind_error hx]
      exact ⟨grows, fun c given => by cases given⟩
    · rw [Run.bind_ok hx]
      obtain ⟨b, hab⟩ := typed a rfl
      obtain ⟨grows', typed'⟩ := (hf a b hab).grows t'
      exact ⟨grows.trans grows', typed'⟩
  same t s alike within := by
    have typed := (h.grows t).2
    have first := h.same t s alike
    rcases hx : x t with ⟨fault | a, t'⟩ <;> rcases hy : y s with ⟨r, s'⟩ <;>
      rw [hx] at typed first <;> rw [hy] at first
    · rw [Run.bind_error hx] at within ⊢
      cases first within
      rw [Run.bind_error hy]
      exact .error fault
    · -- What is kept only grows, so that it has not passed the limit before the second run either.
      obtain ⟨b, hab⟩ := typed a rfl
      rw [Run.bind_ok hx] at within ⊢
      have before : kept t' ≤ limit := ((hf a b hab).grows t').1.trans within
      cases first before with
      | ok both =>
        rw [Run.bind_ok hy]
        exact (hf _ _ both.1).same t' s' both.2 within

end Settles

/-- Traversals of which the first one keeps the greatest bound that its inner nodes need. -/
def settled (σ : Type) (limit : Nat) : Simulation Nat σ where
  run V x y := Settles id (fun _ _ => True) limit V x y
  check V c d := Settles (τ := ErrorLog × Nat) (σ := ErrorLog × σ) Prod.snd
    (fun state state' => state.1 = state'.1) limit V c d
  run_pure := Settles.pure
  run_bind := Settles.bind
  run_trial {c d} h := by
    refine ⟨fun most => ?_, fun most s _ within => ?_⟩
    · have grows := (h.grows ({}, most)).1
      rcases hc : c ({}, most) with ⟨r, log, most'⟩
      rw [hc] at grows
      rw [Check.trial_apply hc]
      exact ⟨grows, fun log' _ => ⟨log', rfl⟩⟩
    · rcases hc : c ({}, most) with ⟨r, log, most'⟩
      rcases hd : d ({}, s) with ⟨r', log', s'⟩
      rw [Check.trial_apply hc] at within ⊢
      rw [Check.trial_apply hd]
      have same := h.same ({}, most) ({}, s) rfl (by rw [hc]; exact within)
      rw [hc, hd] at same
      cases same with
      | ok both => exact .ok ⟨both.2, trivial⟩
      | error fault => exact .error fault
  check_pure := Settles.pure
  check_bind := Settles.bind
  check_ofRun {α β V x y} h := by
    refine ⟨?_, ?_⟩
    · rintro ⟨log, most⟩
      rw [Check.ofRun_apply log (rfl : x most = (_, _))]
      exact h.grows most
    · rintro ⟨log, most⟩ ⟨_, s⟩ rfl within
      rw [Check.ofRun_apply log (rfl : x most = (_, _))] at within ⊢
      rw [Check.ofRun_apply log (rfl : y s = (_, _))]
      exact (h.same most s trivial within).imp fun _ _ both => ⟨both.1, rfl⟩
  check_record violation :=
    ⟨fun state => ⟨Nat.le_refl state.2, fun _ _ => ⟨(), trivial⟩⟩, by
      rintro ⟨log, most⟩ ⟨_, s⟩ rfl _
      exact .ok ⟨trivial, rfl⟩⟩
  check_within {α β V c d} segment h := by
    refine ⟨?_, ?_⟩
    · rintro ⟨log, most⟩
      rw [Check.within_apply (rfl : c (log.enter segment, most) = (_, _, _))]
      exact h.grows (log.enter segment, most)
    · rintro ⟨log, most⟩ ⟨_, s⟩ rfl within
      rw [Check.within_apply (rfl : c (log.enter segment, most) = (_, _, _))] at within ⊢
      rw [Check.within_apply (rfl : d (log.enter segment, s) = (_, _, _))]
      exact (h.same (log.enter segment, most) (log.enter segment, s) rfl within).imp
        fun _ _ both => ⟨both.1, congrArg ErrorLog.leave both.2⟩

section Places

variable {place : Place} {value : Json} {limit : Nat}

/-- The check of a node within the bound that it takes does what the check within a limit does. -/
theorem checkSettled_settles (place : Place) (value : Json) :
    (settled σ limit).check (fun _ _ => True)
      (Node.checkSettled context place.node value (place.scope (.ofContext context)))
      (place.node.check limit value (place.scope (.ofContext context))) := by
  refine ⟨fun state => ⟨Nat.le_max_left .., fun _ _ => ⟨(), trivial⟩⟩, ?_⟩
  rintro ⟨log, most⟩ ⟨_, s⟩ rfl within
  let depth := place.checkDepth context value
  have enough : depth ≤ limit := (Nat.le_max_right ..).trans within
  obtain ⟨result, recorded⟩ := place.check_of_checkDepth_le enough log s
  have result : (place.node.check depth value (place.scope (.ofContext context)) (log, most)).1 =
      (place.node.check limit value (place.scope (.ofContext context)) (log, s)).1 :=
    (place.check_state depth value log most log s).trans result
  show SameResult (fun _ _ => True ∧ (place.node.check depth value _ (log, most)).2.1 = _)
    (place.node.check depth value _ (log, most)).1 _
  rw [result]
  cases given : (place.node.check limit value (place.scope (.ofContext context)) (log, s)).1 with
  | error fault => exact .error fault
  | ok _ =>
    have recorded := recorded (by rw [given]; rintro ⟨⟩)
    exact .ok ⟨trivial, (place.check_log depth log most s).trans (congrArg Prod.fst recorded)⟩

/-- The cast of a value within the bound that it takes does what the cast within a limit does. -/
theorem castSettled_settles (place : Place) (value : Json) :
    (settled σ limit).run Eq
      (Node.castSettled context place.node value (place.scope (.ofContext context)))
      (place.cast limit (.ofContext context) value) := by
  refine ⟨fun most => ⟨Nat.le_max_left .., fun a _ => ⟨a, rfl⟩⟩, fun most s _ within => ?_⟩
  have enough : place.castDepth context value ≤ limit := (Nat.le_max_right ..).trans within
  show SameResult _ (place.cast (place.castDepth context value) _ value most).1 _
  rw [place.cast_of_castDepth_le enough s, place.cast_state _ _ s most]
  cases (place.cast (place.castDepth context value) (.ofContext context) value most).1 with
  | error fault => exact .error fault
  | ok output => exact .ok ⟨rfl, trivial⟩

/-- Where a validation comes to a log under some bound, it does so within the bound that it
takes. -/
theorem holds_trial_checkSettled {bound : Nat} {log : ErrorLog}
    (ended : (place.validate bound (.ofContext context) value ()).1 = .ok log) :
    (Check.trial (Node.checkSettled context place.node value
      (place.scope (.ofContext context)))).Holds (fun _ => True) (fun _ => False)
        fun found => found = log := by
  have uncut : (place.validate bound (.ofContext context) value ()).1 ≠ .error .exhausted := by
    rw [ended]
    rintro ⟨⟩
  have least : (place.validate (place.checkDepth context value) (.ofContext context) value ()).1 ≠
      .error .exhausted := fun cut => uncut (Place.validate_of_cut_at_checkDepth cut bound)
  rw [place.validate_of_le value (Nat.sInf_le uncut) least] at ended
  intro most _
  have result : (Check.trial (Node.checkSettled context place.node value
      (place.scope (.ofContext context))) most).1 = .ok log := by
    rw [← ended, place.validate_state _ _ () most]
    rfl
  rw [result]
  exact ⟨trivial, fun found given => (Except.ok.inj given).symm, fun fault given => by cases given⟩

/-- Where a cast comes to a value under some bound, it does so within the bound that it takes. -/
theorem holds_castSettled {bound : Nat} {output : Json}
    (given : (place.cast bound (.ofContext context) value ()).1 = .ok output) :
    (Node.castSettled context place.node value (place.scope (.ofContext context))).Holds
      (fun _ => True) (fun _ => False) fun _ => True := by
  have uncut : (place.cast bound (.ofContext context) value ()).1 ≠ .error .exhausted := by
    rw [given]
    rintro ⟨⟩
  have result (most : Nat) : (Node.castSettled context place.node value
      (place.scope (.ofContext context)) most).1 = .ok output := by
    rw [← given, place.cast_of_castDepth_le (Nat.sInf_le uncut), place.cast_state _ _ () most]
    rfl
  intro most _
  rw [result]
  exact ⟨trivial, fun _ _ => trivial, fun fault given => by cases given⟩

/-- If a cast comes to a value where each inner node is given the bound that it takes, then it comes
to one under some bound. -/
theorem exists_cast_of_settled {output : Json}
    (given : (place.node.castWith (Node.checkSettled context) (Node.castSettled context) value
      (place.scope (.ofContext context)) 0).1 = .ok output) :
    ∃ bound, (place.cast bound (.ofContext context) value ()).1 = .ok output := by
  let limit := (place.node.castWith (Node.checkSettled context) (Node.castSettled context) value
    (place.scope (.ofContext context)) 0).2
  have serves : (settled Unit limit).Serves context (.ofContext context) (.ofContext context)
      place := (settled Unit limit).serves_ofContext fun _ => Settles.broken _
  have related := (settled Unit limit).castWith_related serves
    (fun target _ value => checkSettled_settles target value)
    (fun target _ value => castSettled_settles target value) value
  have same := related.same 0 () trivial (Nat.le_refl limit)
  rw [given] at same
  change SameResult _ _ (place.cast (limit + 1) (.ofContext context) value ()).1 at same
  refine ⟨limit + 1, ?_⟩
  generalize (place.cast (limit + 1) (.ofContext context) value ()).1 = last at same ⊢
  cases same with
  | ok both => rw [both.1]

end Places

end SchemaCast
