import SchemaCast.Schema.Node

/-!
# The size of a schema

The number of nodes of a schema, its definitions included, together with the size of the defaults
that it may put in place of missing values.
-/
namespace SchemaCast

mutual

/-- The size of a node. -/
def Node.size : Node → Nat
  | ⟨options, kind⟩ => options.size + kind.size + 1

/-- The size of the default and the definitions of a node. -/
def NodeOptions.size : NodeOptions → Nat
  | ⟨_, _, _, default, _, _, _, _, _, definitions⟩ =>
    (match default with
      | some value => value.size
      | none => 0) + Schema.sizeNamed definitions

/-- The size of the nodes below a kind. -/
def Kind.size : Kind → Nat
  | .hash ⟨properties, patternProperties, additional, _, _, _, _, _, _⟩ =>
    Schema.sizeNamed properties + Schema.sizePatterned patternProperties +
      Schema.sizePolicy additional
  | .array ⟨items, additional, contains, _, _, _, _, _, _⟩ =>
    items.size + Schema.sizeTail additional + Schema.sizeOptional contains
  | .combination _ alternatives _ => Schema.sizeAll alternatives
  | .string _ => 0
  | .integer _ => 0
  | .number _ => 0
  | .boolean _ => 0
  | .symbol => 0
  | .object _ => 0
  | .reference _ => 0

/-- The size of the nodes of a shape. -/
def ItemShape.size : ItemShape → Nat
  | .any => 0
  | .list item => item.size
  | .tuple positions => Schema.sizeAll positions

/-- The size of nodes by name. -/
def Schema.sizeNamed : List (String × Node) → Nat
  | [] => 0
  | (_, node) :: rest => node.size + Schema.sizeNamed rest

/-- The size of nodes by pattern. -/
def Schema.sizePatterned : List (Pattern × Node) → Nat
  | [] => 0
  | (_, node) :: rest => node.size + Schema.sizePatterned rest

/-- The size of the node of a policy. -/
def Schema.sizePolicy : Policy Node → Nat
  | .schema node => node.size
  | .reject => 0
  | .allow => 0

/-- The size of the node of the policy for a tail. -/
def Schema.sizeTail : Option (Policy Node) → Nat
  | none => 0
  | some policy => Schema.sizePolicy policy

/-- The size of a node that may be missing. -/
def Schema.sizeOptional : Option Node → Nat
  | none => 0
  | some node => node.size

/-- The size of nodes in a row. -/
def Schema.sizeAll : List Node → Nat
  | [] => 0
  | node :: rest => node.size + Schema.sizeAll rest

end

end SchemaCast
