import Mathlib.Data.List.Forall2
import SchemaCast.Proofs.Construction
import SchemaCast.Proofs.Declaration.Grammar

/-!
# Reading options

`Built.Takes` says when something is built and what comes out of it; the conditions of steps in a
row add up. Every reader of an option takes just the values of the shape that the grammar gives it,
and what it reads is what the option says.
-/
namespace SchemaCast

/-- A build succeeds just under a condition, and what it gives is as stated. -/
structure Built.Takes {α : Type} (x : Built α) (P : Prop) (V : α → Prop) : Prop where
  succeeds : (∃ a, x = .ok a) ↔ P
  gives : x.Gives V

namespace Built.Takes

variable {α β : Type} {P Q : Prop} {V : α → Prop} {W : β → Prop}

theorem pure {a : α} (h : V a) : Built.Takes (Pure.pure a) True V where
  succeeds := ⟨fun _ => trivial, fun _ => ⟨a, rfl⟩⟩
  gives := .pure h

theorem throw (error : SchemaError) :
    Built.Takes (MonadExcept.throw error : Built α) False V where
  succeeds := ⟨fun ⟨_, h⟩ => (by cases h), False.elim⟩
  gives := .throw error

/-- The condition of the second step may not depend on the result of the first one. -/
theorem bind {x : Built α} {f : α → Built β} (hx : x.Takes P V)
    (hf : ∀ a, V a → (f a).Takes Q W) : Built.Takes (x >>= f) (P ∧ Q) W where
  succeeds := by
    cases h : x with
    | error error =>
      have refused : ¬ P := fun hP => by
        obtain ⟨a, ha⟩ := hx.succeeds.mpr hP
        rw [h] at ha
        cases ha
      exact ⟨fun ⟨_, hb⟩ => (by cases hb), fun both => absurd both.1 refused⟩
    | ok a =>
      have taken : P := hx.succeeds.mp ⟨a, h⟩
      have next : (∃ b, (.ok a >>= f) = .ok b) ↔ Q := (hf a (hx.gives a h)).succeeds
      exact next.trans ⟨fun hQ => ⟨taken, hQ⟩, fun both => both.2⟩
  gives := .bind hx.gives fun a ha => (hf a ha).gives

theorem iff {x : Built α} {V' : α → Prop} (h : x.Takes P V) (condition : P ↔ Q)
    (imp : ∀ a, P → V a → V' a) : x.Takes Q V' where
  succeeds := h.succeeds.trans condition
  gives a ha := imp a (h.succeeds.mp ⟨a, ha⟩) (h.gives a ha)

theorem map {x : Built α} {f : α → β} (h : x.Takes P V) (imp : ∀ a, V a → W (f a)) :
    Built.Takes (x >>= fun a => Pure.pure (f a)) P W :=
  (bind h fun a ha => .pure (imp a ha)).iff (iff_of_eq (and_true P)) fun _ _ h => h

theorem guard {c : Prop} [Decidable c] {error : SchemaError} {next : Built α}
    (h : next.Takes P V) :
    Built.Takes (if c then (do MonadExcept.throw error; next) else next) (¬ c ∧ P) V := by
  split
  · next refused => exact ⟨⟨fun ⟨_, h⟩ => (by cases h), fun both => absurd refused both.1⟩, by
      rintro _ ⟨⟩⟩
  · next passed => exact h.iff (by simp [passed]) fun _ _ h => h

theorem mapM {f : β → Built α} {P : β → Prop} {V : β → α → Prop} {items : List β}
    (h : ∀ item ∈ items, (f item).Takes (P item) (V item)) :
    Built.Takes (items.mapM f) (∀ item ∈ items, P item) fun all => List.Forall₂ V items all := by
  induction items with
  | nil => exact (Takes.pure .nil).iff (by simp) fun _ _ h => h
  | cons item rest ih =>
    rw [List.mapM_cons]
    have others := ih fun other mem => h other (List.mem_cons_of_mem _ mem)
    refine (Takes.bind (h item (List.mem_cons_self ..)) fun a ha =>
      others.bind fun all hall => .pure (List.Forall₂.cons ha hall)).iff ?_ fun _ _ h => h
    simp

end Built.Takes

open Built (Takes)

namespace Declaration

variable {α : Type} (options : Options) (key : String)

/-- An option is missing, or its value has a shape. -/
def FitsAt (options : Options) (entry : String × OptionShape) : Prop :=
  ∀ value, given? options entry.1 = some value → Fits entry.2 value

section

variable {options : Options} {key : String} {shape : OptionShape}

theorem fitsAt_of_none (missing : given? options key = none) : FitsAt options (key, shape) := by
  intro value found
  rw [missing] at found
  cases found

theorem fitsAt_iff_of_some {value : Json} (found : given? options key = some value) :
    FitsAt options (key, shape) ↔ Fits shape value := by
  refine ⟨fun h => h value found, fun h other given => ?_⟩
  rw [found] at given
  cases given
  exact h

end

/-- An option takes the values that its reader has an answer for. -/
theorem option?_takes {read : Json → Except OptionProblem α} {shape : OptionShape}
    (fits : ∀ value, Fits shape value ↔ (read value).isOk) :
    (option? read options key).Takes (FitsAt options (key, shape))
      (· = (given? options key).bind fun value => (read value).toOption) := by
  unfold option?
  cases found : given? options key with
  | none => exact (Takes.pure (by rfl)).iff (by simp [fitsAt_of_none found]) fun _ _ h => h
  | some value =>
    rw [fitsAt_iff_of_some found, fits]
    dsimp only
    cases h : read value with
    | ok a =>
      refine (Takes.pure (V := (· = some a)) rfl).iff ⟨fun _ => rfl, fun _ => trivial⟩ ?_
      rintro _ _ rfl
      simp [h, Except.toOption]
    | error problem =>
      exact (Takes.throw _).iff ⟨False.elim, fun accepted => nomatch accepted⟩ fun _ _ h => h

theorem isOk_orProblem (problem : OptionProblem) (a : Option α) :
    (orProblem problem a).isOk = a.isSome := by
  cases a <;> rfl

theorem toOption_orProblem (problem : OptionProblem) (a : Option α) :
    (orProblem problem a).toOption = a := by
  cases a <;> rfl

/-! ### Shapes without declarations in them -/

theorem fits_text_iff {value : Json} : Fits .text value ↔ value.text?.isSome := by
  constructor
  · intro h
    cases h with
    | text s => rfl
  · intro h
    cases value with
    | str s => exact .text s
    | _ => cases h

theorem fits_truth_iff {value : Json} : Fits .truth value ↔ value.bool?.isSome := by
  constructor
  · intro h
    cases h with
    | truth b => rfl
  · intro h
    cases value with
    | bool b => exact .truth b
    | _ => cases h

theorem fits_number_iff {value : Json} : Fits .number value ↔ value.number?.isSome := by
  constructor
  · intro h
    cases h with
    | whole n => rfl
    | fraction x => rfl
  · intro h
    cases value with
    | int n => exact .whole n
    | float x => exact .fraction x
    | _ => cases h

theorem fits_count_iff {value : Json} : Fits .count value ↔ value.nat?.isSome := by
  constructor
  · intro h
    cases h with
    | count n => simp [Json.nat?]
  · intro h
    cases value with
    | int n =>
      have positive : 0 ≤ n := by simpa [Json.nat?] using h
      obtain ⟨n, rfl⟩ := Int.eq_ofNat_of_zero_le positive
      exact .count n
    | _ => cases h

theorem mapM_text?_eq_some_iff {items : List Json} {texts : List String} :
    items.mapM Json.text? = some texts ↔ items = texts.map .str := by
  induction items generalizing texts with
  | nil => cases texts <;> simp
  | cons item rest ih =>
    cases texts with
    | nil => cases item <;> simp [Json.text?, Option.bind_eq_some_iff]
    | cons s others =>
      cases item <;> simp [Json.text?, ih, Option.bind_eq_some_iff, and_comm]

theorem filterMap_text? (texts : List String) :
    (texts.map Json.str).filterMap Json.text? = texts := by
  rw [List.filterMap_map]
  exact List.filterMap_some

theorem readStrings_of_fits (itemProblem problem : OptionProblem) {value : Json}
    (fits : Fits .texts value) :
    readStrings itemProblem problem value = .ok (listedTexts value) := by
  cases fits with
  | oneText s => rfl
  | severalTexts texts =>
    have found : (texts.map Json.str).mapM Json.text? = some texts :=
      mapM_text?_eq_some_iff.mpr rfl
    rw [readStrings, listedTexts, filterMap_text?, found]
    rfl

theorem fits_texts_iff {itemProblem problem : OptionProblem} {value : Json} :
    Fits .texts value ↔ (readStrings itemProblem problem value).isOk := by
  constructor
  · intro fits
    rw [readStrings_of_fits itemProblem problem fits]
    rfl
  · intro h
    cases value with
    | str s => exact .oneText s
    | arr items =>
      rw [readStrings, isOk_orProblem] at h
      obtain ⟨texts, found⟩ := Option.isSome_iff_exists.mp h
      rw [mapM_text?_eq_some_iff.mp found]
      exact .severalTexts texts
    | _ => cases h

theorem fits_values_iff {value : Json} : Fits .values value ↔ ∃ items, value = .arr items := by
  constructor
  · intro h
    cases h with
    | values items => exact ⟨items, rfl⟩
  · rintro ⟨items, rfl⟩
    exact .values items

theorem fits_format_iff {value : Json} :
    Fits .format value ↔ (value.text?.bind Format.ofName?).isSome := by
  constructor
  · intro h
    cases h with
    | format format => cases format <;> rfl
  · intro h
    cases value with
    | str s =>
      obtain ⟨format, found⟩ := Option.isSome_iff_exists.mp h
      have same : format.name = s := by simpa using List.find?_some found
      exact same ▸ .format format
    | _ => cases h

theorem fits_predicate_iff {value : Json} :
    Fits .predicate value ↔ (value.text?.bind Predicate.named?).isSome := by
  constructor
  · intro h
    cases h with
    | predicate known => exact List.find?_isSome.mpr ⟨_, known, by simp⟩
  · intro h
    cases value with
    | str s =>
      obtain ⟨predicate, found⟩ : ∃ predicate, Predicate.named? s = some predicate :=
        Option.isSome_iff_exists.mp h
      have same : predicate.name = s := by simpa using List.find?_some found
      exact same ▸ .predicate (List.mem_of_find?_eq_some found)
    | _ => cases h

/-! ### Readers -/

/-- A reader that knows what to do with some values. -/
theorem orProblem_takes {shape : OptionShape} {g : Json → Option α} {problem : OptionProblem}
    (fits : ∀ value, Fits shape value ↔ (g value).isSome) :
    (option? (fun value => orProblem problem (g value)) options key).Takes
      (FitsAt options (key, shape)) (· = (given? options key).bind g) := by
  refine (option?_takes options key fun value => ?_).iff .rfl fun _ _ h => ?_
  · rw [fits, isOk_orProblem]
  · simpa only [toOption_orProblem] using h

theorem string?_takes : (string? options key).Takes (FitsAt options (key, .text))
    (· = (given? options key).bind Json.text?) :=
  orProblem_takes options key fun _ => fits_text_iff

theorem number?_takes : (number? options key).Takes (FitsAt options (key, .number))
    (· = givenNumber options key) :=
  orProblem_takes options key fun _ => fits_number_iff

theorem count?_takes : (count? options key).Takes (FitsAt options (key, .count))
    (· = givenCount options key) :=
  orProblem_takes options key fun _ => fits_count_iff

theorem bool?_takes : (bool? options key).Takes (FitsAt options (key, .truth))
    (· = (given? options key).bind Json.bool?) :=
  orProblem_takes options key fun _ => fits_truth_iff

theorem flag_takes : (flag options key).Takes (FitsAt options (key, .truth))
    (· = true ↔ given? options key = some (.bool true)) := by
  refine (Takes.bind (bool?_takes options key) fun a h => .pure ?_).iff
    (iff_of_eq (and_true _)) fun _ _ h => h
  rw [h]
  cases given? options key with
  | none => simp
  | some value => cases value <;> simp [Json.bool?]

theorem values?_takes : (values? options key).Takes (FitsAt options (key, .values))
    fun _ => True := by
  refine (option?_takes options key fun value => ?_).iff .rfl fun _ _ _ => trivial
  rw [fits_values_iff]
  cases value <;> simp [Except.isOk, Except.toBool]

theorem strings?_takes : (strings? options key).Takes (FitsAt options (key, .texts))
    (· = (given? options key).map listedTexts) := by
  refine (option?_takes options key fun _ => fits_texts_iff).iff .rfl fun _ fits h => ?_
  rw [h]
  cases found : given? options key with
  | none => rfl
  | some value =>
    simp [readStrings_of_fits _ _ (fits value found), Except.toOption]

/-- A reader that looks a name up. -/
theorem named_takes {shape : OptionShape} {find : String → Option α}
    {problem : String → OptionProblem}
    (fits : ∀ value, Fits shape value ↔ (value.text?.bind find).isSome) :
    (option? (fun value => do
      let name ← orProblem .notString value.text?
      orProblem (problem name) (find name)) options key).Takes (FitsAt options (key, shape))
        fun _ => True := by
  refine (option?_takes options key fun value => ?_).iff .rfl fun _ _ _ => trivial
  rw [fits]
  cases value with
  | str s =>
    show (find s).isSome = true ↔ (orProblem (problem s) (find s)).isOk = true
    rw [isOk_orProblem]
  | _ => rfl

theorem compile_takes (source : String) :
    (Pattern.compile source).Takes (∃ expr, Regex.Expr.parse? source = some expr)
      fun _ => True := by
  unfold Pattern.compile
  rw [← Option.isSome_iff_exists, ← Pattern.ofSource?_isSome_iff]
  cases Pattern.ofSource? source with
  | some pattern => exact (Takes.pure trivial).iff (by simp) fun _ _ h => h
  | none => exact (Takes.throw _).iff (by simp) fun _ _ h => h

/-- A text that is compiled. -/
theorem pattern?_takes : (string? options key >>= Option.mapM Pattern.compile).Takes
    (FitsAt options (key, .pattern)) fun _ => True := by
  have compiled (source : Option String) : (source.mapM Pattern.compile).Takes
      (∀ s ∈ source, ∃ expr, Regex.Expr.parse? s = some expr) fun _ => True := by
    cases source with
    | none => exact (Takes.pure trivial).iff (by simp) fun _ _ h => h
    | some s =>
      refine (Takes.bind (compile_takes s) fun pattern _ => .pure trivial).iff ?_ fun _ _ h => h
      simp
  have inner (source : Option String) (h : source = (given? options key).bind Json.text?) :
      (source.mapM Pattern.compile).Takes (∀ s ∈ (given? options key).bind Json.text?,
        ∃ expr, Regex.Expr.parse? s = some expr) fun _ => True := h ▸ compiled source
  refine (Takes.bind (string?_takes options key) inner).iff ?_ fun _ _ h => h
  cases found : given? options key with
  | none => simp [fitsAt_of_none found]
  | some value =>
    rw [fitsAt_iff_of_some found, fitsAt_iff_of_some found]
    constructor
    · rintro ⟨text, parses⟩
      cases text with
      | text s =>
        obtain ⟨expr, parsed⟩ := parses s rfl
        exact .pattern parsed
    · intro fits
      cases fits with
      | pattern parsed =>
        refine ⟨.text _, ?_⟩
        rintro _ ⟨⟩
        exact ⟨_, parsed⟩

theorem ignored_takes : (ignored options key).Takes (FitsAt options (key, .tolerance))
    (· = .all ↔ given? options key = some (.bool true)) := by
  unfold ignored
  split
  · next missing =>
    exact (Takes.pure (by simp [missing])).iff (by simp [fitsAt_of_none missing]) fun _ _ h => h
  · next found =>
    rw [fitsAt_iff_of_some found]
    exact (Takes.pure (by simp [found])).iff (by simp [Fits.allOrNone]) fun _ _ h => h
  · next found =>
    rw [fitsAt_iff_of_some found]
    exact (Takes.pure (by simp [found])).iff (by simp [Fits.allOrNone]) fun _ _ h => h
  · next value no yes found =>
    have texts : FitsAt options (key, .texts) ↔ FitsAt options (key, .tolerance) := by
      rw [fitsAt_iff_of_some found, fitsAt_iff_of_some found]
      refine ⟨.tolerated, fun fits => ?_⟩
      cases fits with
      | allOrNone b => cases b <;> simp_all
      | tolerated texts => exact texts
    have other (names : List String) :
        Ignored.keys names = .all ↔ given? options key = some (.bool true) := by
      rw [found]
      exact ⟨fun same => (nomatch same), fun same => absurd (Option.some.inj same) yes⟩
    refine (Takes.bind (strings?_takes options key) fun names _ => .pure ?_).iff ?_ fun _ _ h => h
    · exact other _
    · rw [texts, and_true]

theorem readDependencies_of_fits {fields : Entries Json}
    (fits : ∀ field ∈ fields, Fits .texts field.2) : readDependencies (.obj fields) =
      .ok (fields.map fun field => (field.1, listedTexts field.2)) := by
  induction fields with
  | nil => rfl
  | cons field rest ih =>
    have others := ih fun other mem => fits other (List.mem_cons_of_mem _ mem)
    have first := readStrings_of_fits .targetItemsNotStrings .targetsNotStrings
      (fits field (List.mem_cons_self ..))
    simp only [readDependencies, List.mapM_cons, first] at others ⊢
    rw [others]
    rfl

theorem fits_of_readDependencies {fields : Entries Json} {read : Entries (List String)}
    (h : readDependencies (.obj fields) = .ok read) : ∀ field ∈ fields, Fits .texts field.2 := by
  induction fields generalizing read with
  | nil => simp
  | cons field rest ih =>
    simp only [readDependencies, List.mapM_cons] at h ih
    cases first : readStrings .targetItemsNotStrings .targetsNotStrings field.2 with
    | error problem =>
      rw [first] at h
      cases h
    | ok texts =>
      have fits : Fits .texts field.2 := fits_texts_iff.mpr (by rw [first]; rfl)
      cases others : rest.mapM fun field => do
          return (field.1, ← readStrings .targetItemsNotStrings .targetsNotStrings field.2) with
      | error problem =>
        rw [first, others] at h
        cases h
      | ok more => exact List.forall_mem_cons.mpr ⟨fits, ih others⟩

theorem fits_dependencies_iff {value : Json} :
    Fits .dependencies value ↔ (readDependencies value).isOk := by
  constructor
  · intro h
    cases h with
    | dependencies fits =>
      rw [readDependencies_of_fits fits]
      rfl
  · intro h
    cases value with
    | obj fields =>
      cases read : readDependencies (.obj fields) with
      | error problem =>
        rw [read] at h
        cases h
      | ok dependencies => exact .dependencies (fits_of_readDependencies read)
    | _ => cases h

theorem dependencies_takes :
    (option? readDependencies options key).Takes (FitsAt options (key, .dependencies))
      fun dependencies => dependencies.getD [] =
        (givenFields options key).map fun field => (field.1, listedTexts field.2) := by
  refine (option?_takes options key fun _ => fits_dependencies_iff).iff .rfl fun _ fits h => ?_
  rw [h, givenFields]
  cases found : given? options key with
  | none => rfl
  | some value =>
    cases fits value found with
    | dependencies fits => simp [readDependencies_of_fits fits, Except.toOption, Json.fields?]

end Declaration

end SchemaCast
