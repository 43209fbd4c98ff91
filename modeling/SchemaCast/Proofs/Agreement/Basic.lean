import SchemaCast.Proofs.Reordering
import SchemaCast.Proofs.Validity

/-!
# Runs that agree

Two runs that differ in the schema they follow or in the order of the keys they are given do not
write the same logs. `Tolerance.runs` and `Tolerance.checks` state what they still have in common:
their results, up to a relation, and whether anything was recorded. Without a registry a run depends
on no state and a check on no log, so that steps of a check may change places.
-/
namespace SchemaCast

variable {α β γ δ : Type}

/-- What two runs may differ in. -/
structure Tolerance where
  /-- Whether the entries of objects may change places. -/
  free : Prop
  /-- The faults of the first run after which nothing is asked of the second one. -/
  cut : Fault → Prop
  /-- In another order of entries another fault may come first. -/
  cut_of_free : free → ∀ fault, cut fault

/-- A check comes to a result, and records nothing or something, whatever log it starts from. -/
def Check.ComesTo (c : Check Unit α) (a : α) (clean : Bool) : Prop :=
  ∀ log, ∃ log', c (log, ()) = (.ok a, log', ()) ∧ log'.isEmpty = (log.isEmpty && clean)

/-- A check ends with a fault, whatever log it starts from. -/
def Check.Breaks (c : Check Unit α) (fault : Fault) : Prop :=
  ∀ log, (c (log, ())).1 = .error fault

namespace Check

variable {c : Check Unit α} {f : α → Check Unit β} {a : α} {b : β} {clean clean' : Bool}
  {fault : Fault}

theorem ComesTo.pure (a : α) : ComesTo (Pure.pure a) a true := fun log => ⟨log, rfl, by simp⟩

theorem ComesTo.bind (hc : c.ComesTo a clean) (hf : (f a).ComesTo b clean') :
    ComesTo (c >>= f) b (clean && clean') := by
  intro log
  obtain ⟨log', hc, empty⟩ := hc log
  obtain ⟨log'', hf, empty'⟩ := hf log'
  exact ⟨log'', by rw [Run.bind_ok hc, hf], by rw [empty', empty, Bool.and_assoc]⟩

theorem ComesTo.bind_breaks (hc : c.ComesTo a clean) (hf : (f a).Breaks fault) :
    Breaks (c >>= f) fault := by
  intro log
  obtain ⟨log', hc, _⟩ := hc log
  rw [Run.bind_ok hc]
  exact hf log'

theorem Breaks.bind (hc : c.Breaks fault) : Breaks (c >>= f) fault := by
  intro log
  rw [Run.bind_error (Prod.ext (hc log) rfl : c (log, ()) = (.error fault, _))]

theorem ComesTo.unique {a' : α} (h : c.ComesTo a clean) (h' : c.ComesTo a' clean') :
    a = a' ∧ clean = clean' := by
  obtain ⟨log, hc, empty⟩ := h {}
  obtain ⟨log', hc', empty'⟩ := h' {}
  rw [hc] at hc'
  cases hc'
  exact ⟨rfl, by simpa [ErrorLog.isEmpty] using empty.symm.trans empty'⟩

theorem ComesTo.record (violation : Violation) :
    (Check.record violation : Check Unit Unit).ComesTo () false :=
  fun log => ⟨_, rfl, by simp [ErrorLog.isEmpty_record]⟩

theorem ComesTo.recordIf (condition : Bool) (violation : Violation) :
    (Check.recordIf condition violation : Check Unit Unit).ComesTo () (!condition) := by
  cases condition
  · exact .pure ()
  · exact .record violation

theorem ComesTo.recordAll (violations : List Violation) :
    (Check.recordAll violations : Check Unit Unit).ComesTo () violations.isEmpty := by
  induction violations with
  | nil => exact .pure ()
  | cons violation rest ih => exact .bind (.record violation) ih

theorem ComesTo.within (segment : Segment) (h : c.ComesTo a clean) :
    (Check.within segment c).ComesTo a clean := by
  intro log
  obtain ⟨log', hc, empty⟩ := h (log.enter segment)
  exact ⟨log'.leave, Check.within_apply hc, empty⟩

theorem Breaks.within (segment : Segment) (h : c.Breaks fault) :
    (Check.within segment c).Breaks fault := by
  intro log
  rw [Check.within_apply (Prod.ext (h _) rfl : c (log.enter segment, ()) = (.error fault, _))]

end Check

namespace Tolerance

/-- Two runs come to related results or end with the same fault, or the first one is cut. -/
inductive runs (T : Tolerance) (V : α → β → Prop) (x : Run Unit α) (y : Run Unit β) : Prop where
  | ok {a : α} {b : β} (left : x () = (.ok a, ())) (right : y () = (.ok b, ())) (h : V a b)
  | fault {fault : Fault} (left : x () = (.error fault, ())) (right : y () = (.error fault, ()))
  | cut {fault : Fault} (left : x () = (.error fault, ())) (h : T.cut fault)

/-- Two checks come to related results and both record nothing, or both something; or they end with
the same fault, or the first one is cut. -/
inductive checks (T : Tolerance) (V : α → β → Prop) (c : Check Unit α) (d : Check Unit β) :
    Prop where
  | ok {a : α} {b : β} {clean : Bool} (left : c.ComesTo a clean) (right : d.ComesTo b clean)
      (h : V a b)
  | fault {fault : Fault} (left : c.Breaks fault) (right : d.Breaks fault)
  | cut {fault : Fault} (left : c.Breaks fault) (h : T.cut fault)

variable (T : Tolerance)

section Runs

variable {V : α → β → Prop} {W : γ → δ → Prop} {x : Run Unit α} {y : Run Unit β}

theorem runs_pure {a : α} {b : β} (h : V a b) : T.runs V (pure a) (pure b) := .ok rfl rfl h

theorem runs_broken (error : SchemaError) :
    T.runs V (Run.broken error) (Run.broken error) := .fault rfl rfl

theorem runs_bind {f : α → Run Unit γ} {g : β → Run Unit δ} (h : T.runs V x y)
    (hf : ∀ a b, V a b → T.runs W (f a) (g b)) : T.runs W (x >>= f) (y >>= g) := by
  cases h with
  | @ok a b left right h =>
    have apply {α γ : Type} {x : Run Unit α} {f : α → Run Unit γ} {a : α} {r : Except Fault γ}
        (hx : x () = (.ok a, ())) (hf : f a () = (r, ())) : (x >>= f) () = (r, ()) := by
      rw [Run.bind_ok hx, hf]
    cases hf a b h with
    | ok hleft hright h => exact .ok (apply left hleft) (apply right hright) h
    | fault hleft hright => exact .fault (apply left hleft) (apply right hright)
    | cut hleft h => exact .cut (apply left hleft) h
  | fault left right => exact .fault (Run.bind_error left) (Run.bind_error right)
  | cut left h => exact .cut (Run.bind_error left) h

theorem runs_imp {V' : α → β → Prop} (h : T.runs V x y) (himp : ∀ a b, V a b → V' a b) :
    T.runs V' x y := by
  cases h with
  | ok left right h => exact .ok left right (himp _ _ h)
  | fault left right => exact .fault left right
  | cut left h => exact .cut left h

/-- The first of two runs that agree agrees with itself. -/
theorem runs_self (h : T.runs V x y) : T.runs Eq x x := by
  cases h with
  | ok left _ _ => exact .ok left left rfl
  | fault left _ => exact .fault left left
  | cut left h => exact .cut left h

theorem runs_trans {U : β → γ → Prop} {R : α → γ → Prop} {z : Run Unit γ} (h : T.runs V x y)
    (h' : T.runs U y z) (hR : ∀ a b c, V a b → U b c → R a c) : T.runs R x z := by
  cases h with
  | ok left right h =>
    cases h' with
    | ok left' right' h' =>
      rw [right] at left'
      cases left'
      exact .ok left right' (hR _ _ _ h h')
    | fault left' => rw [right] at left'; cases left'
    | cut left' => rw [right] at left'; cases left'
  | fault left right =>
    cases h' with
    | ok left' => rw [right] at left'; cases left'
    | fault left' right' =>
      rw [right] at left'
      cases left'
      exact .fault left right'
    | cut left' h =>
      rw [right] at left'
      cases left'
      exact .cut left h
  | cut left h => exact .cut left h

/-- Where entries may change places, the runs for two of them may. -/
theorem runs_swap {V : γ → γ → Prop} (free : T.free) {x : Run Unit α} {y : Run Unit β}
    (hx : T.runs Eq x x) (hy : T.runs Eq y y) {f g : α → β → Run Unit γ}
    (hfg : ∀ a b, T.runs V (f a b) (g a b)) :
    T.runs V (x >>= fun a => y >>= fun b => f a b) (y >>= fun b => x >>= fun a => g a b) := by
  cases hx with
  | @ok a _ hx =>
    cases hy with
    | @ok b _ hy =>
      have left : (x >>= fun a => y >>= fun b => f a b) () = f a b () := by
        rw [Run.bind_ok hx, Run.bind_ok hy]
      have right : (y >>= fun b => x >>= fun a => g a b) () = g a b () := by
        rw [Run.bind_ok hy, Run.bind_ok hx]
      cases hfg a b with
      | ok hf hg h => exact .ok (left.trans hf) (right.trans hg) h
      | fault hf => exact .cut (left.trans hf) (T.cut_of_free free _)
      | cut hf => exact .cut (left.trans hf) (T.cut_of_free free _)
    | fault hy => exact .cut (by rw [Run.bind_ok hx, Run.bind_error hy]) (T.cut_of_free free _)
    | cut hy => exact .cut (by rw [Run.bind_ok hx, Run.bind_error hy]) (T.cut_of_free free _)
  | fault hx => exact .cut (Run.bind_error hx) (T.cut_of_free free _)
  | cut hx => exact .cut (Run.bind_error hx) (T.cut_of_free free _)

end Runs

section Checks

variable {V : α → β → Prop} {W : γ → δ → Prop} {c : Check Unit α} {d : Check Unit β}

theorem checks_pure {a : α} {b : β} (h : V a b) : T.checks V (pure a) (pure b) :=
  .ok (.pure a) (.pure b) h

theorem checks_bind {f : α → Check Unit γ} {g : β → Check Unit δ} (h : T.checks V c d)
    (hf : ∀ a b, V a b → T.checks W (f a) (g b)) : T.checks W (c >>= f) (d >>= g) := by
  cases h with
  | @ok a b _ left right h =>
    cases hf a b h with
    | ok hleft hright h => exact .ok (left.bind hleft) (right.bind hright) h
    | fault hleft hright => exact .fault (left.bind_breaks hleft) (right.bind_breaks hright)
    | cut hleft h => exact .cut (left.bind_breaks hleft) h
  | fault left right => exact .fault left.bind right.bind
  | cut left h => exact .cut left.bind h

theorem checks_seq {c d : Check Unit Unit} {c' : Check Unit γ} {d' : Check Unit δ}
    (first : T.checks (fun _ _ => True) c d) (second : T.checks W c' d') :
    T.checks W (c >>= fun _ => c') (d >>= fun _ => d') :=
  T.checks_bind first fun _ _ _ => second

theorem checks_ofRun {x : Run Unit α} {y : Run Unit β} (h : T.runs V x y) :
    T.checks V (Check.ofRun x) (Check.ofRun y) := by
  have comes {γ : Type} {x : Run Unit γ} {a : γ} (h : x () = (.ok a, ())) :
      (Check.ofRun x).ComesTo a true := fun log => ⟨log, Check.ofRun_apply log h, by simp⟩
  have breaks {γ : Type} {x : Run Unit γ} {fault : Fault} (h : x () = (.error fault, ())) :
      (Check.ofRun x).Breaks fault := fun log => congrArg Prod.fst (Check.ofRun_apply log h)
  cases h with
  | ok left right h => exact .ok (comes left) (comes right) h
  | fault left right => exact .fault (breaks left) (breaks right)
  | cut left h => exact .cut (breaks left) h

/-- Checks that agree are tried with the same success. -/
theorem runs_trial {c d : Check Unit Unit} (h : T.checks (fun _ _ => True) c d) :
    T.runs (fun log log' => log.isEmpty = log'.isEmpty) (Check.trial c) (Check.trial d) := by
  have breaks {c : Check Unit Unit} {fault : Fault} (h : c.Breaks fault) :
      Check.trial c () = (.error fault, ()) := by
    rw [Check.trial_apply (Prod.ext (h {}) rfl : c ({}, ()) = (.error fault, _))]
    rfl
  cases h with
  | ok left right =>
    obtain ⟨log, hc, empty⟩ := left {}
    obtain ⟨log', hd, empty'⟩ := right {}
    exact .ok (Check.trial_apply hc) (Check.trial_apply hd) (empty.trans empty'.symm)
  | fault left right => exact .fault (breaks left) (breaks right)
  | cut left h => exact .cut (breaks left) h

theorem checks_within (segment : Segment) (h : T.checks V c d) :
    T.checks V (Check.within segment c) (Check.within segment d) := by
  cases h with
  | ok left right h => exact .ok (left.within segment) (right.within segment) h
  | fault left right => exact .fault (left.within segment) (right.within segment)
  | cut left h => exact .cut (left.within segment) h

theorem checks_recordIf {condition condition' : Bool} (h : condition = condition')
    (violation violation' : Violation) :
    T.checks (fun _ _ => True) (Check.recordIf condition violation)
      (Check.recordIf condition' violation') := by
  subst h
  exact .ok (.recordIf condition violation) (.recordIf condition violation') trivial

theorem checks_recordAll {violations violations' : List Violation}
    (h : violations = [] ↔ violations' = []) :
    T.checks (fun _ _ => True) (Check.recordAll violations) (Check.recordAll violations') := by
  have same : violations.isEmpty = violations'.isEmpty := by
    rw [Bool.eq_iff_iff, List.isEmpty_iff, List.isEmpty_iff, h]
  have right : (Check.recordAll violations' : Check Unit Unit).ComesTo () violations.isEmpty := by
    rw [same]
    exact .recordAll violations'
  exact .ok (.recordAll violations) right trivial

/-- The first of two checks that agree agrees with itself. -/
theorem checks_self (h : T.checks V c d) : T.checks Eq c c := by
  cases h with
  | ok left _ _ => exact .ok left left rfl
  | fault left _ => exact .fault left left
  | cut left h => exact .cut left h

theorem checks_trans {e : Check Unit β} {c : Check Unit α} {d : Check Unit α}
    (h : T.checks Eq c d) (h' : T.checks V d e) : T.checks V c e := by
  have clash {a : α} {clean : Bool} {fault : Fault} (comes : d.ComesTo a clean)
      (breaks : d.Breaks fault) : False := by
    obtain ⟨log, hd, _⟩ := comes {}
    have := breaks {}
    rw [hd] at this
    cases this
  cases h with
  | ok left right same =>
    subst same
    cases h' with
    | ok left' right' h =>
      obtain ⟨rfl, rfl⟩ := right.unique left'
      exact .ok left right' h
    | fault left' => exact (clash right left').elim
    | cut left' => exact (clash right left').elim
  | fault left right =>
    cases h' with
    | ok left' => exact (clash left' right).elim
    | fault left' right' =>
      have := (right {}).symm.trans (left' {})
      cases this
      exact .fault left right'
    | cut left' h =>
      have := (right {}).symm.trans (left' {})
      cases this
      exact .cut left h
  | cut left h => exact .cut left h

theorem checks_aligned {R : α → β → Prop} {f : String × α → Check Unit Unit}
    {g : String × β → Check Unit Unit} {entries : Entries α} {entries' : Entries β}
    (h : Entries.Aligned R entries entries')
    (hfg : ∀ key a b, R a b → T.checks (fun _ _ => True) (f (key, a)) (g (key, b))) :
    T.checks (fun _ _ => True) (entries.forM f) (entries'.forM g) := by
  induction h with
  | nil => exact T.checks_pure trivial
  | cons head _ ih => exact T.checks_seq (hfg _ _ _ head) ih

/-- Where entries may change places, the checks of two of them may. -/
theorem checks_swap (free : T.free) {c d rest : Check Unit Unit} (hc : T.checks Eq c c)
    (hd : T.checks Eq d d) (hrest : T.checks Eq rest rest) :
    T.checks Eq (c >>= fun _ => d >>= fun _ => rest) (d >>= fun _ => c >>= fun _ => rest) := by
  cases hc with
  | ok left =>
    cases hd with
    | ok left' =>
      cases hrest with
      | @ok _ _ clean left'' _ _ =>
        refine .ok (left.bind (left'.bind left'')) ?_ rfl
        rw [Bool.and_left_comm]
        exact left'.bind (left.bind left'')
      | fault left'' =>
        exact .cut (left.bind_breaks (left'.bind_breaks left'')) (T.cut_of_free free _)
      | cut left'' =>
        exact .cut (left.bind_breaks (left'.bind_breaks left'')) (T.cut_of_free free _)
    | fault left' => exact .cut (left.bind_breaks left'.bind) (T.cut_of_free free _)
    | cut left' => exact .cut (left.bind_breaks left'.bind) (T.cut_of_free free _)
  | fault left => exact .cut left.bind (T.cut_of_free free _)
  | cut left => exact .cut left.bind (T.cut_of_free free _)

theorem checks_shuffled {f : String × α → Check Unit Unit} {entries entries' : Entries α}
    (order : Entries.Shuffled T.free entries entries')
    (self : ∀ entry ∈ entries, T.checks Eq (f entry) (f entry)) :
    T.checks Eq (entries.forM f) (entries'.forM f) := by
  induction order with
  | nil => exact T.checks_pure rfl
  | cons entry _ ih =>
    refine T.checks_bind (self entry (by simp)) fun _ _ _ => ?_
    exact ih fun other hother => self other (by simp [hother])
  | swap free distinct rest =>
    have later : T.checks Eq (rest.forM f) (rest.forM f) := by
      have rest_self : ∀ entry ∈ rest, T.checks Eq (f entry) (f entry) :=
        fun entry mem => self entry (by simp [mem])
      clear self
      induction rest with
      | nil => exact T.checks_pure rfl
      | cons entry rest ih =>
        exact T.checks_bind (rest_self entry (by simp)) fun _ _ _ =>
          ih fun other mem => rest_self other (by simp [mem])
    exact T.checks_swap free (self _ (by simp)) (self _ (by simp)) later
  | trans left _ ihl ihr =>
    exact T.checks_trans (ihl self) (ihr fun entry mem => self entry (left.perm.mem_iff.mpr mem))

/-- Entries with related values may be checked in any order. -/
theorem checks_reordered {R : α → β → Prop} {f : String × α → Check Unit Unit}
    {g : String × β → Check Unit Unit} {entries : Entries α} {entries' : Entries β}
    (h : Entries.Reordered T.free R entries entries')
    (hfg : ∀ key a b, R a b → T.checks (fun _ _ => True) (f (key, a)) (g (key, b))) :
    T.checks (fun _ _ => True) (entries.forM f) (entries'.forM g) := by
  obtain ⟨between, order, aligned⟩ := h
  have self : ∀ entry ∈ entries, T.checks Eq (f entry) (f entry) := by
    rintro ⟨key, a⟩ mem
    obtain ⟨b, _, hab⟩ := aligned.exists_of_mem (order.perm.mem_iff.mp mem)
    exact T.checks_self (hfg key a b hab)
  exact T.checks_trans (T.checks_shuffled order self) (T.checks_aligned aligned hfg)

end Checks

end Tolerance

end SchemaCast
