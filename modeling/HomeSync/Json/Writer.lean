import HomeSync.Json.Basic

/-
Writing JSON without blanks.
-/
namespace HomeSync
namespace Json

/-- A string literal in its quotes. -/
def quoted (literal : List UInt8) : List UInt8 :=
  '"'.toUInt8 :: literal ++ ['"'.toUInt8]

mutual

def render : Json → List UInt8
  | .null => "null".toList.map Char.toUInt8
  | .bool true => "true".toList.map Char.toUInt8
  | .bool false => "false".toList.map Char.toUInt8
  | .number literal => literal
  | .text literal => quoted literal
  | .array items => '['.toUInt8 :: renderItems items ++ [']'.toUInt8]
  | .object members => '{'.toUInt8 :: renderMembers members ++ ['}'.toUInt8]

def renderItems : List Json → List UInt8
  | [] => []
  | [v] => render v
  | v :: w :: rest => render v ++ ','.toUInt8 :: renderItems (w :: rest)

def renderMembers : List (List UInt8 × Json) → List UInt8
  | [] => []
  | [(name, v)] => quoted name ++ ':'.toUInt8 :: render v
  | (name, v) :: m :: rest =>
    quoted name ++ ':'.toUInt8 :: render v ++ ','.toUInt8 :: renderMembers (m :: rest)

end

end Json
end HomeSync
