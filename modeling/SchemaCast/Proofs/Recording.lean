import SchemaCast.Proofs.Discovery
import SchemaCast.Proofs.Entries
import SchemaCast.Proofs.Fuel
import SchemaCast.Proofs.Visits

/-!
# A run is decided by the answers to its questions

A resolver may have a state, and yet give each name one answer for as long as a run lasts. Then all
that the run learns from it are the answers to the names that it asks for. A recording resolver
shows which names these are: the run of another resolver that answers them in the same way takes the
same course, whatever other names stand for.
-/
namespace SchemaCast

variable {σ τ : Type}

namespace Resolver

/-- A resolver that records in the state what it is asked for. -/
def recording (resolver : Resolver σ) : Resolver (σ × List String) where
  external name := fun (state, asked) =>
    let (result, state) := resolver.external name state
    (result, state, asked ++ [name])
  size := resolver.size

/-- In every state of a kind, each name gets the same answer, and the state stays of the kind. -/
def Answers (resolver : Resolver σ) (Q : σ → Prop)
    (answer : String → Except SchemaError (Option Node)) : Prop :=
  ∀ name s, Q s → (resolver.external name s).1 = (answer name).mapError .schema ∧
    Q (resolver.external name s).2

end Resolver

/-! ### Finitely many answers -/

/-- Wherever a schema or a schema of the context asks for a name, the context holds its answer. -/
def Context.Supplies (context : Context) (root : Node)
    (answer : String → Except SchemaError (Option Node)) : Prop :=
  ∀ place : Place, place.Written context root → ∀ name, place.NeedsExternal name →
    ∀ found, answer name = .ok found → context.get? name = found

/-- If only finitely many schemas are ever found, then a context holds all that is asked for. -/
theorem exists_supplies {answer : String → Except SchemaError (Option Node)} {schemas : List Node}
    (few : ∀ name schema, answer name = .ok (some schema) → schema ∈ schemas) (root : Node) :
    ∃ context : Context, context.Supplies root answer := by
  let names := (root :: schemas).flatMap fun schema => schema.place.externalUses
  let value (name : String) : Option Node := (answer name).toOption.join
  have answered {name : String} {schema : Node} (found : value name = some schema) :
      answer name = .ok (some schema) := by
    change (answer name).toOption.join = some schema at found
    cases given : answer name with
    | error error => rw [given] at found; cases found
    | ok other => rw [given] at found; exact congrArg _ found
  refine ⟨names.filterMap fun name => (value name).map fun found => (name, found), ?_⟩
  intro place ⟨schema, origin, within⟩ name needs found given
  have listed : schema ∈ root :: schemas := by
    rcases origin with rfl | ⟨other, _, held⟩
    · exact List.mem_cons_self
    · rw [Entries.get?_filterMap] at held
      split at held
      · exact List.mem_cons_of_mem _ (few other schema (answered held))
      · cases held
  have used : name ∈ names :=
    List.mem_flatMap.mpr ⟨schema, listed, Place.mem_externalUses.mpr ⟨place, within, needs⟩⟩
  rw [Entries.get?_filterMap, if_pos used]
  change (answer name).toOption.join = found
  rw [given]
  rfl

/-! ### Runs on record -/

/-- A run keeps a record of what it asks for; if it has asked for known names only, another run does
the same, unless the first one is cut off. -/
structure Follows {σ τ α β : Type} (cut : Prop) (known : List String) (asked : σ → List String)
    (Q : σ → Prop) (Same : σ → τ → Prop) (V : α → β → Prop) (x : Run σ α) (y : Run τ β) :
    Prop where
  grows : ∀ before, x.Holds (fun s => Q s ∧ before ⊆ asked s) (fun _ => True) fun a => ∃ b, V a b
  same : ∀ s t, Q s → Same s t → asked (x s).2 ⊆ known →
    (cut ∧ (x s).1 = .error .exhausted) ∨ (Same (x s).2 (y t).2 ∧ SameResult V (x s).1 (y t).1)

namespace Follows

variable {cut : Prop} {known : List String} {asked : σ → List String} {Q : σ → Prop}
  {Same : σ → τ → Prop} {α β γ δ : Type} {V : α → β → Prop} {W : γ → δ → Prop}

theorem pure {a : α} {b : β} (h : V a b) :
    Follows cut known asked Q Same V (Pure.pure a) (Pure.pure b) where
  grows _ := .pure ⟨b, h⟩
  same _ _ _ same _ := .inr ⟨same, .ok h⟩

theorem broken (error : SchemaError) :
    Follows cut known asked Q Same V (Run.broken error) (Run.broken error) where
  grows _ := .broken trivial
  same _ _ _ same _ := .inr ⟨same, .error _⟩

theorem exhausted : Follows cut known asked Q Same V Run.exhausted Run.exhausted where
  grows _ := .exhausted trivial
  same _ _ _ same _ := .inr ⟨same, .error _⟩

theorem of_cut (h : cut) (y : Run τ β) : Follows cut known asked Q Same V Run.exhausted y where
  grows _ := .exhausted trivial
  same _ _ _ _ _ := .inl ⟨h, rfl⟩

theorem bind {x : Run σ α} {y : Run τ β} {f : α → Run σ γ} {g : β → Run τ δ}
    (h : Follows cut known asked Q Same V x y)
    (hf : ∀ a b, V a b → Follows cut known asked Q Same W (f a) (g b)) :
    Follows cut known asked Q Same W (x >>= f) (y >>= g) where
  grows before := .bind (h.grows before) fun a typed => by
    obtain ⟨b, hab⟩ := typed
    exact (hf a b hab).grows before
  same s t hs hst ended := by
    rcases hx : x s with ⟨fault | a, s'⟩
    · rw [Run.bind_error hx] at ended ⊢
      rcases hy : y t with ⟨r, t'⟩
      have first := h.same s t hs hst (by rw [hx]; exact ended)
      rw [hx, hy] at first
      rcases first with cut | ⟨hst', same⟩
      · exact .inl ⟨cut.1, by rw [Except.error.inj cut.2]⟩
      · cases same
        rw [Run.bind_error hy]
        exact .inr ⟨hst', .error fault⟩
    · rw [Run.bind_ok hx] at ended ⊢
      obtain ⟨⟨hs', _⟩, typed, _⟩ := h.grows [] s ⟨hs, by simp⟩
      rw [hx] at hs' typed
      obtain ⟨b, hab⟩ := typed a rfl
      -- What has been asked for by now is still on record in the end.
      have before : asked s' ⊆ known :=
        List.Subset.trans ((hf a b hab).grows (asked s') s' ⟨hs', fun _ => id⟩).1.2 ended
      have first := h.same s t hs hst (by rw [hx]; exact before)
      rcases hy : y t with ⟨r, t'⟩
      rw [hx, hy] at first
      rcases first with ⟨_, cut⟩ | ⟨hst', same⟩
      · cases cut
      · cases same with
        | ok hab =>
          rw [Run.bind_ok hy]
          exact (hf _ _ hab).same s' t' hs' hst' ended

end Follows

/-- Runs and checks on record, of which others take the same course. -/
def follows (cut : Prop) (known : List String) (Q : σ → Prop) (Q' : τ → Prop) :
    Simulation (σ × List String) τ where
  run V x y := Follows cut known Prod.snd (fun s => Q s.1) (fun _ t => Q' t) V x y
  check V c d := Follows (σ := ErrorLog × σ × List String) (τ := ErrorLog × τ) cut known
    (fun s => s.2.2) (fun s => Q s.2.1) (fun s t => s.1 = t.1 ∧ Q' t.2) V c d
  run_pure := .pure
  run_bind := .bind
  run_trial {c d} h := by
    refine ⟨fun before => (keeps τ (fun s : σ × List String => Q s.1 ∧ before ⊆ s.2)
      fun _ => True).run_trial (d := d) (h.grows before), fun s t hs ht ended => ?_⟩
    rcases hc : c ({}, s) with ⟨r, log, s'⟩
    rcases hd : d ({}, t) with ⟨r', log', t'⟩
    rw [Check.trial_apply hc] at ended ⊢
    rw [Check.trial_apply hd]
    have same := h.same ({}, s) ({}, t) hs ⟨rfl, ht⟩ (by rw [hc]; exact ended)
    rw [hc, hd] at same
    rcases same with ⟨cut, rfl⟩ | ⟨⟨rfl, ht'⟩, same⟩
    · exact .inl ⟨cut, rfl⟩
    · cases same with
      | ok _ => exact .inr ⟨ht', .ok rfl⟩
      | error fault => exact .inr ⟨ht', .error fault⟩
  check_pure := .pure
  check_bind := .bind
  check_ofRun {α β V x y} h := by
    refine ⟨fun before => (keeps τ (fun s : σ × List String => Q s.1 ∧ before ⊆ s.2)
      fun _ => True).check_ofRun (y := y) (h.grows before), ?_⟩
    rintro ⟨log, s⟩ ⟨log', t⟩ hs ⟨rfl, ht⟩ ended
    rw [Check.ofRun_apply log (rfl : x s = (_, _))] at ended ⊢
    rw [Check.ofRun_apply log (rfl : y t = (_, _))]
    rcases h.same s t hs ht ended with cut | ⟨ht', same⟩
    · exact .inl cut
    · exact .inr ⟨⟨rfl, ht'⟩, same⟩
  check_record violation := by
    refine ⟨fun before => (keeps τ (fun s : σ × List String => Q s.1 ∧ before ⊆ s.2)
      fun _ => True).check_record violation, ?_⟩
    rintro ⟨log, s⟩ ⟨log', t⟩ hs ⟨rfl, ht⟩ ended
    exact .inr ⟨⟨rfl, ht⟩, .ok trivial⟩
  check_within {α β V c d} segment h := by
    refine ⟨fun before => (keeps τ (fun s : σ × List String => Q s.1 ∧ before ⊆ s.2)
      fun _ => True).check_within (d := d) segment (h.grows before), ?_⟩
    rintro ⟨log, s⟩ ⟨log', t⟩ hs ⟨rfl, ht⟩ ended
    rcases hc : c (log.enter segment, s) with ⟨r, log', s'⟩
    rcases hd : d (log.enter segment, t) with ⟨r', log'', t'⟩
    rw [Check.within_apply hc] at ended ⊢
    rw [Check.within_apply hd]
    have same := h.same (log.enter segment, s) (log.enter segment, t) hs ⟨rfl, ht⟩
      (by rw [hc]; exact ended)
    rw [hc, hd] at same
    rcases same with cut | ⟨⟨rfl, ht'⟩, same⟩
    · exact .inl cut
    · exact .inr ⟨⟨rfl, ht'⟩, same⟩

section Steady

variable {resolver : Resolver σ} {resolver' : Resolver τ} {Q : σ → Prop} {Q' : τ → Prop}
  {answer answer' : String → Except SchemaError (Option Node)} {cut : Prop}
  {known : List String} {context : Context} {root : Node}
  (steady : resolver.Answers Q answer) (steady' : resolver'.Answers Q' answer')

section Traversal

variable (agree : ∀ name ∈ known, answer' name = answer name)
  (supplies : context.Supplies root answer)

include steady steady' agree in
/-- A known name gets the same answer on both sides. -/
theorem follows_external {name : String}
    (held : ∀ found, answer name = .ok found → context.get? name = found) :
    (follows cut known Q Q').run (fun a b => a = b ∧ context.get? name = a)
      (resolver.recording.external name) (resolver'.external name) where
  grows before := by
    rintro ⟨s, asked⟩ ⟨hs, sub⟩
    obtain ⟨result, hs'⟩ := steady name s hs
    have grown : before ⊆ asked ++ [name] := List.Subset.trans sub (List.subset_append_left ..)
    refine ⟨⟨hs', grown⟩, fun found ok => ?_, fun _ _ => trivial⟩
    change (resolver.external name s).1 = .ok found at ok
    rw [result] at ok
    cases given : answer name with
    | error error => rw [given] at ok; cases ok
    | ok other =>
      rw [given] at ok
      cases ok
      exact ⟨found, rfl, held found given⟩
  same := by
    rintro ⟨s, asked⟩ t hs ht sub
    obtain ⟨result, hs'⟩ := steady name s hs
    obtain ⟨result', ht'⟩ := steady' name t ht
    have mem : name ∈ known := sub (List.mem_append_right _ (List.mem_singleton_self name))
    refine .inr ⟨ht', ?_⟩
    change SameResult _ (resolver.external name s).1 _
    rw [result, result', agree name mem]
    cases given : answer name with
    | error error => exact .error _
    | ok found => exact .ok ⟨rfl, held found given⟩

include steady steady' agree supplies in
theorem serves_follows {place : Place} (written : place.Written context root) :
    (follows cut known Q Q').Serves context resolver.recording resolver' place where
  target name referenced := by
    unfold Scope.target
    cases declared : lookupLocal name place.inner with
    | some found =>
      have leads : context.place? place.inner name = some ⟨found.1, found.2⟩ := by
        rw [Context.place?, declared]
      exact .pure ⟨_, leads, rfl, rfl⟩
    | none =>
      have held := supplies place written name ⟨referenced, declared⟩
      refine .bind (follows_external steady steady' agree held) ?_
      rintro found _ ⟨rfl, given⟩
      cases found with
      | some node =>
        have leads : context.place? place.inner name = some node.place := by
          rw [Context.place?, declared, given]
          rfl
        exact .pure ⟨_, leads, rfl, rfl⟩
      | none => exact .broken _
  deadEnd _ := .broken _

include steady steady' agree supplies in
theorem check_follows {place : Place} (written : place.Written context root) (value : Json)
    {fuel more : Nat} (h : fuel ≤ more) :
    (follows True known Q Q').check (fun _ _ => True)
      (place.node.check fuel value (place.scope resolver.recording))
      (place.node.check more value (place.scope resolver')) := by
  induction fuel generalizing place value more with
  | zero => exact Follows.of_cut trivial _
  | succ fuel ih =>
    obtain ⟨more, rfl⟩ : ∃ n, more = n + 1 := ⟨more - 1, by omega⟩
    exact (follows True known Q Q').checkWith_related
      (serves_follows steady steady' agree supplies written)
      (fun target step value => ih (Place.written_of_step written step) value (by omega)) value

include steady steady' agree supplies in
/-- A cast takes the course of a cast on record, unless that one is cut off earlier. -/
theorem cast_follows {place : Place} (written : place.Written context root) (value : Json)
    {fuel more : Nat} (h : fuel ≤ more) :
    (follows True known Q Q').run Eq (place.cast fuel resolver.recording value)
      (place.cast more resolver' value) := by
  induction fuel generalizing place value more with
  | zero => exact .of_cut trivial _
  | succ fuel ih =>
    obtain ⟨more, rfl⟩ : ∃ n, more = n + 1 := ⟨more - 1, by omega⟩
    exact (follows True known Q Q').castWith_related
      (serves_follows steady steady' agree supplies written)
      (fun target step value => check_follows steady steady' agree supplies
        (Place.written_of_step written step) value (by omega))
      (fun target step value => ih (Place.written_of_step written step) value (by omega)) value

end Traversal

variable {schemas : List Node}
  (few : ∀ name schema, answer name = .ok (some schema) → schema ∈ schemas)
  (fuel : Nat) (value : Json) {s : σ} (hs : Q s)

include steady few hs in
/-- It makes no difference to a cast that it is on record. -/
theorem cast_recording (root : Node) :
    (root.place.cast fuel resolver.recording value (s, [])).1 =
      (root.place.cast fuel resolver value s).1 := by
  obtain ⟨context, supplies⟩ := exists_supplies few root
  have start : root.place.Written context root := ⟨root, .inl rfl, .refl⟩
  let record := (root.place.cast fuel resolver.recording value (s, [])).2.2
  have related := (follows False record Q Q).cast_related (fun _ _ => Place.written_of_step)
    (fun _ => serves_follows steady steady (fun _ _ => rfl) supplies) .exhausted fuel root.place
    start value
  rcases related.same (s, []) s hs hs (fun _ => id) with ⟨no, _⟩ | ⟨_, same⟩
  · exact no.elim
  · exact same.eq

include steady steady' few hs in
/-- A cast by other answers comes to what a cast has come to that asked for names with the same
answer only. -/
theorem cast_of_recorded (root : Node) {t : τ} (ht : Q' t) {more : Nat} (enough : fuel ≤ more)
    (agree : ∀ name ∈ (root.place.cast fuel resolver.recording value (s, [])).2.2,
      answer' name = answer name)
    (ended : (root.place.cast fuel resolver value s).1 ≠ .error .exhausted) :
    (root.place.cast more resolver' value t).1 = (root.place.cast fuel resolver value s).1 := by
  obtain ⟨context, supplies⟩ := exists_supplies few root
  have start : root.place.Written context root := ⟨root, .inl rfl, .refl⟩
  have related := cast_follows steady steady' agree supplies start value enough
  have plain := cast_recording steady few fuel value hs root
  rcases related.same (s, []) t hs ht (fun _ => id) with ⟨_, cut⟩ | ⟨_, same⟩
  · exact absurd (plain ▸ cut) ended
  · rw [← plain]
    exact same.eq.symm

end Steady

end SchemaCast
