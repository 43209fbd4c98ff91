import SchemaCast.Proofs.Export.Subschemas
import SchemaCast.Proofs.Export.Pointer

/-!
# Tokens of names

The token of a name comes from two replacements in a row: first each tilde becomes `~0`, then each
slash `~1`. Every mark that the second one makes begins with a tilde, but none of the first one's
marks has a slash, so the two can be made at once; and reading a token takes them back in the other
order. So an exported pointer tells its name, and selects the definition of just that name.
-/
namespace SchemaCast.Pointer

/-- Put a text in the place of a character, everywhere. -/
def replaceAll (c : Char) (mark text : List Char) : List Char :=
  text.flatMap fun d => if d = c then mark else [d]

/-- A tilde is replaced before a slash is, so no mark is replaced again. -/
theorem escape_eq_replaceAll (key : String) :
    (escape key).toList = replaceAll '/' ['~', '1'] (replaceAll '~' ['~', '0'] key.toList) := by
  rw [escape, String.toList_ofList, replaceAll, replaceAll, List.flatMap_assoc]
  congr 1
  funext c
  by_cases tilde : c = '~'
  · simp [escapeChar, tilde]
  · by_cases slash : c = '/' <;> simp [escapeChar, tilde, slash]

theorem toDefinition_injective : Function.Injective toDefinition := by
  intro name other same
  have tokens : escape name = escape other := (String.append_right_inj _).mp same
  rw [← unescape_escape name, tokens, unescape_escape]

/-- An exported reference, or include, is a pointer whose last token comes from the name by the two
replacements. The token has no slash, reading it gives the name back, no other name has the same
pointer, and where an object has definitions by name the pointer selects the one of the name. -/
theorem token_tells_name (name : String) :
    (∀ options, (Export.node ⟨options, .reference name⟩).get? "$ref" =
      some (.str ("#/definitions/" ++ escape name))) ∧
    Export.reference name = .obj [("$ref", .str ("#/definitions/" ++ escape name))] ∧
    (escape name).toList = replaceAll '/' ['~', '1'] (replaceAll '~' ['~', '0'] name.toList) ∧
    '/' ∉ (escape name).toList ∧ unescape (escape name) = name ∧
    (∀ other, toDefinition other = toDefinition name → other = name) ∧
    ∀ document definitions : Entries Json,
      document.get? "definitions" = some (.obj definitions) →
        resolve? (.obj document) (toDefinition name) = definitions.get? name := by
  refine ⟨fun options => ?_, rfl, escape_eq_replaceAll name, slash_not_mem_escape name,
    unescape_escape name, fun other same => toDefinition_injective same, ?_⟩
  · rw [Export.node_eq, Entries.get?_append]
    rfl
  · intro document definitions held
    rw [resolve?_toDefinition, held, Option.bind_some, descend_key]

/-- A name that looks like marks, beside one that its marks might be taken for. -/
theorem token_tells_name_marks :
    let definitions : Entries Json := [("~1", .int 1), ("/~0", .int 2), ("//~", .int 3)]
    escape "/~0" = "~1~00" ∧
      resolve? (.obj [("definitions", .obj definitions)]) (toDefinition "/~0") = some (.int 2) := by
  intro definitions
  obtain ⟨_, _, _, _, _, _, selects⟩ := token_tells_name "/~0"
  exact ⟨by decide, selects [("definitions", .obj definitions)] definitions rfl⟩

end SchemaCast.Pointer
