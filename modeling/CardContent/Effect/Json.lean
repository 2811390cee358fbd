import CardContent.Effect.Basic
import CardContent.Json.Basic

/-!
# Effects as JSON

An effect is an object whose field `type` says whether it is a leaf or a compound. Reading takes
the fields in any order, passes over fields it does not know, and takes a missing `param` for none.
An effect may also be an array of its tag and its fields in the order of writing; then none may be
missing. Numbers are not checked against a catalog, and a compound may be without parts.
-/

set_option autoImplicit false

namespace CardContent

/-- The names by which a combinator is known. -/
def Combinator.names : List String := ["AND", "OR"]

/-- A combinator by its name, or by an object with its name as the only key and nothing in it (the
derived `Deserialize` of `CompoundKind`). -/
def Combinator.ofJson? : Json → Option Combinator
  | .str name => Combinator.ofKeyword? name
  | .obj [(name, .null)] => Combinator.ofKeyword? name
  | .obj [(name, .obj [])] => Combinator.ofKeyword? name
  | _ => none

namespace Leaf

/-- The fields of a leaf. -/
def toFields (leaf : Leaf) : List (String × Json) :=
  [("index", .int leaf.index.toNat), ("description", .str leaf.description),
    ("param", (leaf.param.map fun p => Json.int p.toInt).getD .null),
    ("optional", .bool leaf.optional)]

/-- A parameter; null stands for none. -/
def paramOfJson? : Json → Option (Option Int32)
  | .null => some none
  | value => value.int32?.map some

/-- A leaf from its four fields. -/
def ofValues? (index description param optional : Json) : Option Leaf := do
  return {
    index := ← index.uint64?
    description := ← description.text?
    param := ← paramOfJson? param
    optional := ← optional.bool? }

/-- A leaf from the fields of an object. -/
def ofFields? (fields : List (String × Json)) : Option Leaf := do
  ofValues? (← fields.lookup "index") (← fields.lookup "description")
    ((fields.lookup "param").getD .null) (← fields.lookup "optional")

end Leaf

namespace Effect

/-- The tags of a leaf and of a compound. -/
def tags : List String := ["simple", "compound"]

mutual

/-- The JSON form of an effect (the derived `Serialize` of `Effect`). -/
def toJson : Effect → Json
  | .simple leaf => .obj (("type", .str "simple") :: leaf.toFields)
  | .compound combinator children optional =>
    .obj [("type", .str "compound"), ("kind", .str combinator.keyword),
      ("children", .arr (toJsons children)), ("optional", .bool optional)]

/-- The JSON forms of several effects. -/
def toJsons : List Effect → List Json
  | [] => []
  | e :: es => e.toJson :: toJsons es

end

mutual

/-- Read an effect (the derived `Deserialize` of `Effect`); `nested` says whether it stands inside
another value. -/
def ofJsonAt? (nested : Bool) : Json → Option Effect
  | .obj fields =>
    match (fields.lookup "type").bind (Json.tag? tags nested) with
    | some 0 => (Leaf.ofFields? fields).map .simple
    | some 1 => do
      let combinator ← (← fields.lookup "kind") |> Combinator.ofJson?
      let children ← childrenOfFields? fields
      let optional ← (← fields.lookup "optional").bool?
      return .compound combinator children optional
    | _ => none
  | .arr [tag, kind, children, optional] =>
    match Json.tag? tags nested tag with
    | some 1 => do
      let combinator ← Combinator.ofJson? kind
      let children ← childrenOfJson? children
      let optional ← optional.bool?
      return .compound combinator children optional
    | _ => none
  | .arr [tag, index, description, param, optional] =>
    match Json.tag? tags nested tag with
    | some 0 => (Leaf.ofValues? index description param optional).map .simple
    | _ => none
  | _ => none

/-- The parts of a compound from the fields of its object. -/
def childrenOfFields? : List (String × Json) → Option (List Effect)
  | [] => none
  | (name, value) :: rest =>
    if "children" == name then childrenOfJson? value else childrenOfFields? rest

/-- The parts of a compound from the array of them. -/
def childrenOfJson? : Json → Option (List Effect)
  | .arr items => ofJsons? items
  | _ => none

/-- Several effects inside another value. -/
def ofJsons? : List Json → Option (List Effect)
  | [] => some []
  | item :: rest => do
    let e ← ofJsonAt? true item
    let es ← ofJsons? rest
    return e :: es

end

/-- Read an effect that stands by itself. -/
def ofJson? (value : Json) : Option Effect :=
  ofJsonAt? false value

end Effect

end CardContent
