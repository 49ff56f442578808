import AbiSig.Hex

/-!
# JSON values and their indented text

`Json` holds any JSON value; members of an object keep their order. `Json.pretty` writes a value with
one item or member per line, two spaces deeper than what encloses it. In strings only the quote, the
backslash and the controls below U+0020 are escaped, so other text stands as it is.
-/

namespace AbiSig

/-- A JSON value; a number is kept as it is written. -/
inductive Json where
  | null
  | bool (value : Bool)
  | number (text : String)
  | string (text : String)
  | array (items : List Json)
  | object (members : List (String × Json))
deriving Repr, Inhabited

namespace Json

/-! ## Strings -/

/-- A character as it stands in a JSON string. -/
def escaped (c : Char) : List Char :=
  if c = '"' then ['\\', '"']
  else if c = '\\' then ['\\', '\\']
  else if c = '\n' then ['\\', 'n']
  else if c = '\r' then ['\\', 'r']
  else if c = '\t' then ['\\', 't']
  else if c = Char.ofNat 0x08 then ['\\', 'b']
  else if c = Char.ofNat 0x0C then ['\\', 'f']
  else if c.toNat < 0x20 then ['\\', 'u', '0', '0'] ++ Hex.encodeByte (UInt8.ofNat c.toNat)
  else [c]

/-- A text as a JSON string. -/
def quote (text : String) : String :=
  String.ofList ('"' :: text.toList.flatMap escaped ++ ['"'])

/-! ## Values -/

/-- The spaces in front of a line at the given depth. -/
def indent (depth : Nat) : String :=
  String.ofList (List.replicate (2 * depth) ' ')

/-- The lines between brackets that stand at the given depth; without lines the brackets touch. -/
def enclose (opening closing : String) (depth : Nat) : List String → String
  | [] => opening ++ closing
  | lines =>
    let inner := lines.map fun line => indent (depth + 1) ++ line
    opening ++ "\n" ++ ",\n".intercalate inner ++ "\n" ++ indent depth ++ closing

mutual

/-- The text of a value that stands at the given depth. -/
def prettyAt (depth : Nat) : Json → String
  | null => "null"
  | bool true => "true"
  | bool false => "false"
  | number text => text
  | string text => quote text
  | array items => enclose "[" "]" depth (prettyItems (depth + 1) items)
  | object members => enclose "\x7b" "\x7d" depth (prettyMembers (depth + 1) members)

/-- The texts of the items of an array. -/
def prettyItems (depth : Nat) : List Json → List String
  | [] => []
  | item :: items => prettyAt depth item :: prettyItems depth items

/-- The texts of the members of an object. -/
def prettyMembers (depth : Nat) : List (String × Json) → List String
  | [] => []
  | (key, value) :: members =>
    (quote key ++ ": " ++ prettyAt depth value) :: prettyMembers depth members

end

/-- The indented text of a value. -/
def pretty (j : Json) : String :=
  prettyAt 0 j

/-! ## Access -/

/-- The value of the first member with the key. -/
def member? (key : String) (members : List (String × Json)) : Option Json :=
  (members.find? fun (k, _) => k == key).map (·.2)

end Json

end AbiSig
