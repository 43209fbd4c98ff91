import SchemaCast.Proofs.Lexical

/-!
# The names that a schema leaves to the resolver

`External.collect` walks over everything that is written in a schema and adds the names that no
definitions around them declare. `External.follow` does the same for the schemas of these names,
until every name in the list has been looked at. What comes out covers the schema: wherever a name
is used in it, or in the schema of a covered name, a lookup stays inside the definitions or asks
for a covered name.
-/
namespace SchemaCast

variable {σ : Type}

namespace External

theorem isLocal_eq (stack : List Definitions) (name : String) :
    isLocal stack name = (lookupLocal name stack).isSome := by
  induction stack with
  | nil => rfl
  | cons definitions outer ih =>
    change (definitions.contains name || isLocal outer name) = _
    rw [lookupLocal, ih, Entries.contains]
    cases definitions.get? name <;> rfl

theorem mem_addName {names : List String} {added name : String} :
    name ∈ addName names added ↔ name ∈ names ∨ name = added := by
  unfold addName
  split
  · next known =>
    have : added ∈ names := by simpa using known
    constructor
    · exact .inl
    · rintro (h | rfl) <;> assumption
  · simp

theorem prefix_addName (names : List String) (name : String) : names <+: addName names name := by
  unfold addName
  split
  · exact List.prefix_refl _
  · exact List.prefix_append _ _

/-- Members of a list that is built up in rounds are there from the start or come in some round. -/
theorem mem_foldl {γ : Type} {f : List String → γ → List String} {R : γ → Prop} {name : String}
    (items : List γ) (names : List String)
    (h : ∀ item ∈ items, ∀ names, name ∈ f names item ↔ name ∈ names ∨ R item) :
    name ∈ items.foldl f names ↔ name ∈ names ∨ ∃ item ∈ items, R item := by
  induction items generalizing names with
  | nil => simp
  | cons item rest ih =>
    rw [List.foldl_cons, ih _ fun other hother => h other (by simp [hother]), h item (by simp)]
    simp [or_assoc]

theorem prefix_foldl {γ : Type} {f : List String → γ → List String} (items : List γ)
    (names : List String) (h : ∀ item ∈ items, ∀ names, names <+: f names item) :
    names <+: items.foldl f names :=
  List.foldlRecOn items f (List.prefix_refl names) fun built hbuilt item hitem =>
    hbuilt.trans (h item hitem built)

theorem mem_addExternal {stack : List Definitions} {names referenced : List String}
    {name : String} :
    name ∈ addExternal stack names referenced ↔
      name ∈ names ∨ (name ∈ referenced ∧ lookupLocal name stack = none) := by
  unfold addExternal
  rw [mem_foldl (f := addName) (R := (name = ·)) _ _ fun added _ names => mem_addName]
  simp [isLocal_eq, List.mem_filter]

theorem prefix_addExternal (stack : List Definitions) (names referenced : List String) :
    names <+: addExternal stack names referenced :=
  prefix_foldl _ names fun name _ built => prefix_addName built name

/-! ### The walk over a schema -/

theorem collectNamed_eq (stack : List Definitions) (names : List String)
    (entries : List (String × Node)) :
    collectNamed stack names entries =
      entries.foldl (fun names entry => collect stack names entry.2) names := by
  induction entries generalizing names with
  | nil => rfl
  | cons entry rest ih =>
    rw [collectNamed, ih]
    rfl

theorem collectPatterned_eq (stack : List Definitions) (names : List String)
    (entries : List (Pattern × Node)) :
    collectPatterned stack names entries =
      (entries.map Prod.snd).foldl (collect stack) names := by
  induction entries generalizing names with
  | nil => rfl
  | cons entry rest ih =>
    rw [collectPatterned, ih]
    rfl

theorem collectAll_eq (stack : List Definitions) (names : List String) (nodes : List Node) :
    collectAll stack names nodes = nodes.foldl (collect stack) names := by
  induction nodes generalizing names with
  | nil => rfl
  | cons node rest ih =>
    rw [collectAll, ih]
    rfl

theorem collectPolicy_eq (stack : List Definitions) (names : List String) (policy : Policy Node) :
    collectPolicy stack names policy = (Node.ofPolicy policy).foldl (collect stack) names := by
  cases policy <;> rfl

theorem collectKind_eq (stack : List Definitions) (names : List String) (node : Node) :
    collectKind stack names node.kind = node.children.foldl (collect stack) names := by
  unfold Node.children
  cases node.kind with
  | hash rules =>
    obtain ⟨properties, patternProperties, additional, _, _, _, _, _, _⟩ := rules
    simp only [collectKind, List.foldl_append, List.foldl_map, collectNamed_eq,
      collectPatterned_eq, collectPolicy_eq]
  | array rules =>
    obtain ⟨items, additional, contains, _, _, _, _, _, _⟩ := rules
    have tail (names : List String) : collectTail stack names additional =
        ((additional.map Node.ofPolicy).getD []).foldl (collect stack) names := by
      cases additional with
      | none => rfl
      | some policy => exact collectPolicy_eq stack names policy
    have own (names : List String) : collectOptional stack names contains =
        contains.toList.foldl (collect stack) names := by
      cases contains <;> rfl
    cases items with
    | tuple positions =>
      simp only [collectKind, collectShape, collectAll_eq, List.foldl_append, tail, own]
    | _ => simp only [collectKind, collectShape, List.foldl_append, tail, own]; rfl
  | combination combinator alternatives blankAsNull =>
    rw [collectKind, collectAll_eq]
  | _ => rfl

/-- The walk takes the names of a node first, then its definitions, then its children. -/
theorem collect_eq (place : Place) (names : List String) :
    collect place.outer names place.node =
      place.node.children.foldl (collect place.inner)
        (place.node.definitions.foldl (fun names entry => collect place.inner names entry.2)
          (addExternal place.inner names place.node.kind.referenced)) := by
  rw [← collectKind_eq, ← collectNamed_eq]
  obtain ⟨⟨⟨_, _, _, _, _, _, _, _, _, definitions⟩, kind⟩, outer⟩ := place
  rw [collect]
  rfl

end External

namespace Place

/-- A name that is used at a place and that no definitions around it declare. -/
def NeedsExternal (place : Place) (name : String) : Prop :=
  name ∈ place.node.kind.referenced ∧ lookupLocal name place.inner = none

/-- A name is needed somewhere inside a place if it is needed at the place or inside a place that
it owns. -/
theorem exists_within_iff {place : Place} {motive : Place → Prop} :
    (∃ used, place.Within used ∧ motive used) ↔
      motive place ∨ (∃ entry ∈ place.node.definitions,
          ∃ used, (⟨entry.2, place.inner⟩ : Place).Within used ∧ motive used) ∨
        ∃ child ∈ place.node.children,
          ∃ used, (⟨child, place.inner⟩ : Place).Within used ∧ motive used := by
  constructor
  · intro h
    obtain ⟨used, within, h⟩ := h
    rcases Relation.ReflTransGen.cases_head within with rfl | ⟨owned, owns, within⟩
    · exact .inl h
    · cases owns with
      | child mem => exact .inr (.inr ⟨_, mem, used, within, h⟩)
      | definition mem => exact .inr (.inl ⟨_, mem, used, within, h⟩)
  · intro h
    rcases h with h | ⟨entry, mem, used, within, h⟩ | ⟨child, mem, used, within, h⟩
    · exact ⟨place, .refl, h⟩
    · exact ⟨used, .head (.definition mem) within, h⟩
    · exact ⟨used, .head (.child mem) within, h⟩

end Place

namespace External

/-- The walk over a place adds exactly the names that are needed somewhere inside it. -/
theorem mem_collect (node : Node) {outer : List Definitions} {names : List String}
    {name : String} :
    name ∈ collect outer names node ↔
      name ∈ names ∨ ∃ used, (⟨node, outer⟩ : Place).Within used ∧ used.NeedsExternal name := by
  induction node using Node.owned_induction generalizing outer names with
  | step node children definitions =>
    rw [collect_eq ⟨node, outer⟩ names, Place.exists_within_iff,
      mem_foldl _ _ fun child mem names => children child mem,
      mem_foldl _ _ fun entry mem names => definitions entry mem, mem_addExternal,
      Place.NeedsExternal, or_assoc, or_assoc]

/-- The walk only ever puts names behind those that are there. -/
theorem prefix_collect (node : Node) (outer : List Definitions) (names : List String) :
    names <+: collect outer names node := by
  induction node using Node.owned_induction generalizing outer names with
  | step node children definitions =>
    rw [collect_eq ⟨node, outer⟩ names]
    refine .trans ?_ (prefix_foldl _ _ fun child mem names => children child mem _ names)
    refine .trans ?_ (prefix_foldl _ _ fun entry mem names => definitions entry mem _ names)
    exact prefix_addExternal _ _ _

/-! ### The schemas of the names -/

/-- A name with a schema of which every name that it needs is in a list. -/
def Followed (context : Context) (names : List String) (name : String) : Prop :=
  ∃ schema, context.get? name = some schema ∧
    ∀ used, schema.place.Within used → ∀ needed, used.NeedsExternal needed → needed ∈ names

theorem Followed.mono {context : Context} {names more : List String} {name : String}
    (h : Followed context names name) (sub : names ⊆ more) : Followed context more name := by
  obtain ⟨schema, found, needs⟩ := h
  exact ⟨schema, found, fun used within needed hneeded => sub (needs used within needed hneeded)⟩

/-- Names are only put behind those that are there, so positions keep their names. -/
theorem take_of_isPrefix {names longer : List String} {next : Nat} {name : String}
    (before : names <+: longer) (now : names[next]? = some name) :
    longer.take (next + 1) = names.take next ++ [name] := by
  obtain ⟨tail, rfl⟩ := before
  have inside : next + 1 ≤ names.length := (List.getElem?_eq_some_iff.mp now).1
  rw [List.take_append_of_le_length inside, List.take_add_one, now]
  rfl

/-- If the names before a position are followed, all names that come out are. -/
theorem followed_of_follow {context : Context} (rounds : Nat) {names all : List String}
    {next : Nat} {s : σ} (done : ∀ name ∈ names.take next, Followed context names name)
    (h : (follow (.ofContext context) rounds names next s).1 = .ok all) :
    names <+: all ∧ ∀ name ∈ all, Followed context all name := by
  induction rounds generalizing names next with
  | zero => cases h
  | succ rounds ih =>
    rw [follow] at h
    cases hname : names[next]? with
    | none =>
      simp only [hname] at h
      cases h
      rw [List.take_of_length_le (List.getElem?_eq_none_iff.mp hname)] at done
      exact ⟨List.prefix_refl _, done⟩
    | some name =>
      simp only [hname, Resolver.external_ofContext, pure_bind] at h
      cases found : context.get? name with
      | none =>
        simp only [found] at h
        cases h
      | some schema =>
        simp only [found] at h
        have longer : names <+: collect [] names schema := prefix_collect schema [] names
        have followed : Followed context (collect [] names schema) name :=
          ⟨schema, found, fun used within needed hneeded =>
            (mem_collect schema).mpr (.inr ⟨used, within, hneeded⟩)⟩
        have same := take_of_isPrefix longer hname
        obtain ⟨before, hall⟩ := ih (fun other mem => by
          rw [same, List.mem_append, List.mem_singleton] at mem
          rcases mem with mem | rfl
          · exact (done other mem).mono longer.subset
          · exact followed) h
        exact ⟨longer.trans before, hall⟩

end External

end SchemaCast
