import SchemaCast.Proofs.Acceptance
import SchemaCast.Proofs.CastDescent

/-!
# The calls of a cast

`Node.castNoting` is a cast that notes for which nodes and values it is called, from the outermost
call on. Without `allOf`, every call in the cast of a valid value is for a value that the node
accepts. Texts that spell a value are therefore always read: the way out for texts that spell none
is never taken.
-/
namespace SchemaCast

variable {σ : Type} {context : Context}

/-- A value that is to be cast at a place. -/
structure CastCall where
  place : Place
  value : Json

/-- Put a call on record. -/
def CastCall.note (call : CastCall) : Run (List CastCall) Unit := fun calls =>
  (.ok (), calls ++ [call])

/-- Cast a value by a node as `Node.castTo` does, and note every call. -/
def Node.castNoting : Nat → NodeCast (List CastCall)
  | 0, node, value, scope => do
    CastCall.note ⟨⟨node, scope.definitions⟩, value⟩
    Run.exhausted
  | fuel + 1, node, value, scope => do
    CastCall.note ⟨⟨node, scope.definitions⟩, value⟩
    node.castWith (Node.check fuel) (castNoting fuel) value scope

/-- Cast a value at a place with a context, and note every call. -/
def Place.castNoting (place : Place) (context : Context) (fuel : Nat) (value : Json) :
    Run (List CastCall) Json :=
  place.node.castNoting fuel value (place.scope (.ofContext context))

namespace Format

/-- Whether a format stands for values other than texts. -/
def converts : Format → Bool
  | .integer => true
  | .number => true
  | .boolean => true
  | .integerList => true
  | _ => false

theorem isSome_mapM_int64? (texts : List (List Char)) (h : texts.all isInteger) :
    (texts.mapM Number.int64?).isSome := by
  induction texts with
  | nil => rfl
  | cons text rest ih =>
    rw [List.all_cons, Bool.and_eq_true, isInteger, Bool.and_eq_true] at h
    obtain ⟨n, hn⟩ := Option.isSome_iff_exists.mp h.1.2
    obtain ⟨numbers, hnumbers⟩ := Option.isSome_iff_exists.mp (ih h.2)
    rw [List.mapM_cons, hn, hnumbers]
    rfl

theorem number?_ne_str (text : List Char) (t : String) : number? text ≠ some (.str t) := by
  unfold number?
  split
  · simp
  · split
    · split <;> simp
    · simp

/-- A text that belongs to a format is read as the value that it spells. -/
theorem cast_ne_str {format : Format} (conversion : format.converts) {s : String}
    (h : format.accepts s) (t : String) : format.cast s ≠ .str t := by
  cases format with
  | integer =>
    have spelled : (Number.int64? s.toList).isSome := (Bool.and_eq_true_iff.mp h).2
    obtain ⟨n, hn⟩ := Option.isSome_iff_exists.mp spelled
    simp [cast, hn]
  | number =>
    have spelled : (number? s.toList).isSome := (Bool.and_eq_true_iff.mp h).2
    obtain ⟨x, hx⟩ := Option.isSome_iff_exists.mp spelled
    rw [cast, hx]
    rintro rfl
    exact number?_ne_str _ t hx
  | boolean => simp [cast]
  | integerList =>
    obtain ⟨numbers, hnumbers⟩ := Option.isSome_iff_exists.mp (isSome_mapM_int64? _ h)
    simp [cast, hnumbers]
  | _ => cases conversion

end Format

/-- A kind reads a text as the value that it spells. -/
def Kind.Reads (s : String) : Kind → Prop
  | .string rules => ∀ format ∈ rules.format, format.accepts s ∧
      rules.cast (.str s) = format.cast s ∧ (format.converts → ∀ t, rules.cast (.str s) ≠ .str t)
  | .integer rules => ∀ t, rules.cast true (.str s) ≠ .str t
  | .number rules => ∀ t, rules.cast false (.str s) ≠ .str t
  | .boolean castText => ∀ t, Truth.cast castText (.str s) ≠ .str t
  | _ => True

theorem NumericRules.cast_ne_str {rules : NumericRules} {integer : Bool} {s : String}
    (text : rules.castText) (h : rules.Admits integer (.str s)) (t : String) :
    rules.cast integer (.str s) ≠ .str t := by
  have conversion : (textFormat integer).converts := by cases integer <;> rfl
  have accepted : (textFormat integer).accepts s := h.1
  simp only [NumericRules.cast, text, accepted, Bool.and_self, if_true]
  exact Format.cast_ne_str conversion accepted t

/-- A text of an accepted type that meets the rules of a kind is read. -/
theorem Kind.reads {kind : Kind} {Sat : Place → Json → Prop} {place : Place} {s : String}
    (type : kind.accepts (.str s)) (met : kind.Meets context Sat place (.str s)) :
    kind.Reads s := by
  cases kind with
  | string rules =>
    intro format hformat
    have accepted : format.accepts s := (met s rfl).format format hformat
    have read : rules.cast (.str s) = format.cast s := by
      simp only [StringRules.cast, Option.mem_def.mp hformat, accepted, if_true]
    refine ⟨accepted, read, fun conversion t => ?_⟩
    rw [read]
    exact Format.cast_ne_str conversion accepted t
  | integer rules =>
    have text : rules.castText := by simpa [accepts, ValueKind.covers] using type
    exact NumericRules.cast_ne_str text met
  | number rules =>
    have text : rules.castText := by simpa [accepts, ValueKind.covers] using type
    exact NumericRules.cast_ne_str text met
  | boolean castText =>
    have text : castText := by simpa [accepts, ValueKind.covers] using type
    intro t
    simp [Truth.cast, text, met s rfl]
  | _ => trivial

/-- A value that a node sees is of a type that its kind accepts. -/
theorem Node.accepts_of_present {node : Node} {value seen : Json}
    (h : node.present value = .ok seen) : node.kind.accepts seen := by
  unfold present at h
  dsimp only at h
  split at h
  · cases h
  · split at h
    · next accepted =>
      cases h
      exact accepted
    · cases h

/-- What is cast for a call is accepted, and a text that is cast for it is read. -/
structure CastCall.Accepted (context : Context) (call : CastCall) : Prop where
  accepts : call.place.Accepts context call.value
  reads : ∀ s, call.place.node.present call.value = .ok (.str s) → call.place.node.kind.Reads s

namespace Place

variable {place : Place} {value : Json}

theorem Accepts.accepted (h : place.Accepts context value) :
    CastCall.Accepted context ⟨place, value⟩ where
  accepts := h
  reads s present := by
    have met := (meets_iff value).mp h.meets
    simp only [present] at met
    exact Kind.reads (Node.accepts_of_present present) met.2

/-- Noting the calls does not change the result of a cast. -/
theorem castNoting_alike (fuel : Nat) (place : Place) (value : Json) :
    (alike (List CastCall) σ).run Eq (place.castNoting context fuel value)
      (place.cast fuel (.ofContext context) value) := by
  induction fuel generalizing place value with
  | zero => exact ⟨_, _, .error .exhausted, fun _ => rfl, fun _ => rfl⟩
  | succ fuel ih =>
    have noted : (CastCall.note ⟨place, value⟩).Yields (.ok ()) := fun _ => rfl
    have serves : (alike (List CastCall) σ).Serves context (.ofContext context)
        (.ofContext context) place := serves_alike place
    obtain ⟨r, r', same, hr, hr'⟩ := (alike (List CastCall) σ).castWith_related serves
      (fun target _ value => check_alike target fuel value) (fun target _ value => ih target value)
      value
    exact ⟨r, r', same, noted.bind_ok hr, hr'⟩

theorem note_holds {Q : CastCall → Prop} {call : CastCall} (h : Q call) :
    (CastCall.note call).Holds (fun calls => ∀ call ∈ calls, Q call) (fun _ => True)
      fun _ => True := by
  intro calls hcalls
  refine ⟨fun other mem => ?_, fun _ _ => trivial, fun _ _ => trivial⟩
  rcases List.mem_append.mp mem with mem | mem
  · exact hcalls other mem
  · rw [List.mem_singleton.mp mem]
    exact h

/-- In the cast of an accepted value every call is for an accepted value. -/
theorem Accepts.holds_castNoting {root : Place}
    (noAll : ∀ used, root.Reaches context used → ∀ alternatives blankAsNull,
      used.node.kind ≠ .combination .allOf alternatives blankAsNull)
    (fuel : Nat) (reached : root.Reaches context place) (h : place.Accepts context value) :
    (place.castNoting context fuel value).Holds
      (fun calls => ∀ call ∈ calls, CastCall.Accepted context call) (fun _ => True)
      fun _ => True := by
  induction fuel generalizing place value with
  | zero => exact .bind (note_holds h.accepted) fun _ _ => .exhausted trivial
  | succ fuel ih =>
    have looked (rules : HashRules) (kind : place.node.kind = .hash rules) (name : String)
        (listed : name ∈ rules.includes) (taken : List String) :
        (rules.includedBy ⟨.ofContext context, place.inner⟩ taken name).Holds
          (fun calls : List CastCall => ∀ call ∈ calls, call.Accepted context) (fun _ => True)
          fun _ => True :=
      ((keeps (List CastCall) _ _).run_includedBy serves_free kind listed taken).imp
        fun _ _ => trivial
    have tried (node : Node) (value : Json) :
        ((⟨node, place.inner⟩ : Place).validate fuel (.ofContext context) value).Holds
          (fun calls : List CastCall => ∀ call ∈ calls, call.Accepted context) (fun _ => True)
          fun log => log.isEmpty → Accepts context ⟨node, place.inner⟩ value :=
      ((validate_keeps ⟨node, place.inner⟩ fuel value _).and_gives
        (tells_accepts fuel ⟨node, place.inner⟩ value).trial).imp fun log hlog => hlog.2.mp
    refine .bind (note_holds h.accepted) fun _ _ => ?_
    refine holds_castWith (fun target step value accepts => ih (reached.tail step) accepts) h.meets
      fun seen _ => ?_
    constructor
    · exact fun rules kind _ _ name listed taken => looked rules kind name listed taken
    · intro rules kind node search item
      have owned := place.node.mem_children_of_contains kind search
      exact (tried node item).imp fun log accepts empty =>
        ih (reached.tail (.child owned)) (accepts empty)
    · exact fun _ _ _ _ node _ => tried node seen
    · exact fun alternatives blankAsNull kind =>
        absurd kind (noAll place reached alternatives blankAsNull)

/-- Where no `allOf` can be reached, a cast of a valid value is called for values only that the node
of the call accepts, and reads every text for which a format or a cast is asked. This holds for
every bound on the depth, and for a cast that is cut off as far as it gets. -/
theorem castNoting_accepted {fuel : Nat} {s : σ} {log : ErrorLog}
    (noAll : ∀ used, place.Reaches context used → ∀ alternatives blankAsNull,
      used.node.kind ≠ .combination .allOf alternatives blankAsNull)
    (valid : (place.validate fuel (.ofContext context) value s).1 = .ok log)
    (empty : log.isEmpty) (bound : Nat) :
    (place.castNoting context bound value []).1 =
        (place.cast bound (.ofContext context) value s).1 ∧
      ∀ call ∈ (place.castNoting context bound value []).2, CastCall.Accepted context call := by
  have accepts : place.Accepts context value := ⟨fuel, acceptsBy_of_validate valid empty⟩
  exact ⟨alike_eq (castNoting_alike bound place value) [] s,
    (accepts.holds_castNoting noAll bound .refl [] (by simp)).1⟩

/-- A choice between a number and a list of numbers, both of them spelled by a text. -/
theorem castNoting_accepted_choice :
    let number : Node := ⟨{}, .integer { castText := true }⟩
    let list : Node := ⟨{}, .string { format := some .integerList }⟩
    let root : Node := ⟨{}, .combination .anyOf [number, list] false⟩
    (root.place.validate 3 (.ofContext [] : Resolver Unit) (.str "1,2") ()).1 = .ok {} ∧
      (root.place.castNoting [] 3 (.str "1,2") []).2 =
        [⟨root.place, .str "1,2"⟩, ⟨list.place, .str "1,2"⟩] ∧
      ∀ call ∈ (root.place.castNoting [] 3 (.str "1,2") []).2, CastCall.Accepted [] call := by
  intro number list root
  have valid : (root.place.validate 3 (.ofContext [] : Resolver Unit) (.str "1,2") ()).1 =
      .ok {} := rfl
  have reached (used : Place) (h : root.place.Reaches [] used) :
      used.node ∈ [root, number, list] := by
    induction h with
    | refl => exact List.mem_cons_self
    | tail _ step ih =>
      simp only [List.mem_cons, List.not_mem_nil, or_false] at ih
      cases step with
      | child owned =>
        rcases ih with h | h | h <;> rw [h] at owned
        · exact List.mem_cons_of_mem _ owned
        · cases owned
        · cases owned
      | reference kind => rcases ih with h | h | h <;> rw [h] at kind <;> cases kind
      | included kind => rcases ih with h | h | h <;> rw [h] at kind <;> cases kind
  have noAll (used : Place) (h : root.place.Reaches [] used) (alternatives : List Node)
      (blankAsNull : Bool) : used.node.kind ≠ .combination .allOf alternatives blankAsNull := by
    intro kind
    have mem := reached used h
    simp only [List.mem_cons, List.not_mem_nil, or_false] at mem
    rcases mem with h | h | h <;> rw [h] at kind <;> cases kind
  exact ⟨valid, rfl, (castNoting_accepted noAll valid rfl 3).2⟩

end Place

end SchemaCast
