import SchemaCast.Proofs.Registry.Paths
import SchemaCast.Schema.Export

/-!
# Where pointers lead to

A pointer is a text of tokens behind slashes, and a hash sign in front of it stands for the document
that it is written in. A token selects a key of an object or a position of an array. The pointer to
the definition of a name leads to the entry of just that name, whatever characters the name has.
-/
namespace SchemaCast

namespace Pointer

/-! ### Tokens -/

theorem replaceMark_cons {mark c d : Char} (h : d ≠ '~') (rest : List Char) :
    replaceMark mark c (d :: rest) = d :: replaceMark mark c rest := by
  rw [replaceMark]
  rintro _ _ rfl
  exact absurd rfl h

/-- Once `~1` is a slash again, only the tildes of a key are still escaped. -/
theorem replaceMark_escape (key : List Char) :
    replaceMark '1' '/' (key.flatMap escapeChar) =
      key.flatMap fun c => if c = '~' then ['~', '0'] else [c] := by
  induction key with
  | nil => rfl
  | cons c rest ih =>
    rw [List.flatMap_cons, List.flatMap_cons, ← ih]
    by_cases tilde : c = '~'
    · subst tilde
      simp [escapeChar, replaceMark, replaceMark_cons]
    · by_cases slash : c = '/'
      · subst slash
        simp [escapeChar, replaceMark]
      · simp [escapeChar, tilde, slash, replaceMark_cons]

theorem replaceMark_tildes (key : List Char) :
    replaceMark '0' '~' (key.flatMap fun c => if c = '~' then ['~', '0'] else [c]) = key := by
  induction key with
  | nil => rfl
  | cons c rest ih =>
    rw [List.flatMap_cons]
    by_cases tilde : c = '~'
    · subst tilde
      simp [replaceMark, ih]
    · simp [tilde, replaceMark_cons, ih]

@[simp] theorem unescape_escape (key : String) : unescape (escape key) = key := by
  simp [unescape, escape, replaceMark_escape, replaceMark_tildes]

theorem slash_not_mem_escape (key : String) : '/' ∉ (escape key).toList := by
  simp only [escape, String.toList_ofList, List.mem_flatMap, not_exists, not_and]
  intro c _
  unfold escapeChar
  split
  · decide
  · split
    · decide
    · next slash => simpa using Ne.symm slash

/-! ### Documents -/

/-- The value that keys and positions lead to, one level after the other. A position is written as a
number without leading zeros. -/
def descend : Json → List String → Option Json
  | value, [] => some value
  | .obj fields, key :: rest => (Entries.get? fields key).bind fun value => descend value rest
  | .arr items, token :: rest =>
    ((token.toNat?.filter fun index => index.repr = token).bind fun index => items[index]?).bind
      fun value => descend value rest
  | _, _ :: _ => none

/-- The value of a document that a pointer leads to. -/
def resolve? (document : Json) (pointer : String) : Option Json :=
  match pathSteps pointer with
  | "#" :: tokens => descend document (tokens.map unescape)
  | _ => none

theorem pathSteps_toDefinition (name : String) :
    pathSteps (toDefinition name) = ["#", "definitions", escape name] := by
  have token : pathSteps (escape name) = [escape name] := by
    simpa using @pathSteps_intercalate [escape name] (by simp)
      (by simpa using slash_not_mem_escape name)
  have parts : toDefinition name = "#" ++ "/" ++ ("definitions" ++ "/" ++ escape name) := by
    rw [toDefinition, ← String.append_assoc, ← String.append_assoc]
    rfl
  rw [parts, pathSteps_append, pathSteps_append, token]
  rfl

@[simp] theorem descend_key (fields : Entries Json) (key : String) :
    descend (.obj fields) [key] = fields.get? key := by
  rw [descend]
  cases fields.get? key <;> rfl

theorem resolve?_toDefinition (document : Entries Json) (name : String) :
    resolve? (.obj document) (toDefinition name) =
      (document.get? "definitions").bind fun definitions => descend definitions [name] := by
  have key : unescape "definitions" = "definitions" := by decide
  rw [resolve?, pathSteps_toDefinition]
  simp only [List.map_cons, List.map_nil, key, unescape_escape, descend]

end Pointer

end SchemaCast
