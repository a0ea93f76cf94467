import Srh.Lib.Ascii

/-! JSON values, their object maps ordered by key, and their compact text. -/
namespace Srh.Lib

/-- A number is kept as the text it is written with. -/
inductive Json where
  | null
  | bool (value : Bool)
  | number (text : String)
  | string (value : String)
  | array (items : List Json)
  | object (members : List (String × Json))

namespace Json

/-- Inserts into members in key order; an equal key is replaced. -/
def insert (key : String) (value : Json) : List (String × Json) → List (String × Json)
  | [] => [(key, value)]
  | (k, v) :: members =>
    if key < k then (key, value) :: (k, v) :: members
    else if key = k then (key, value) :: members
    else (k, v) :: insert key value members

def escape (c : Char) : List Char :=
  match c.toNat with
  | 0x22 => ['\\', '"']
  | 0x5C => ['\\', '\\']
  | 0x08 => ['\\', 'b']
  | 0x09 => ['\\', 't']
  | 0x0A => ['\\', 'n']
  | 0x0C => ['\\', 'f']
  | 0x0D => ['\\', 'r']
  | n => if n < 0x20 then ['\\', 'u', '0', '0', Ascii.hexDigit (n / 16), Ascii.hexDigit (n % 16)] else [c]

def quote (value : String) : List Char := '"' :: value.toList.flatMap escape ++ ['"']

mutual

def write : Json → List Char
  | null => "null".toList
  | bool true => "true".toList
  | bool false => "false".toList
  | number text => text.toList
  | string value => quote value
  | array items => '[' :: writeItems items
  | object members => '\x7b' :: writeMembers members

def writeItems : List Json → List Char
  | [] => [']']
  | [item] => write item ++ [']']
  | item :: items => write item ++ ',' :: writeItems items

def writeMembers : List (String × Json) → List Char
  | [] => ['\x7d']
  | [(key, value)] => quote key ++ ':' :: write value ++ ['\x7d']
  | (key, value) :: members => quote key ++ ':' :: write value ++ ',' :: writeMembers members

end

section Write
variable (text key : String) (value next : Json) (items : List Json) (members : List (String × Json))

theorem write_number : write (.number text) = text.toList := rfl

theorem write_string : write (.string text) = quote text := rfl

theorem write_array : write (.array items) = '[' :: writeItems items := rfl

theorem write_object : write (.object members) = '\x7b' :: writeMembers members := rfl

theorem writeItems_singleton : writeItems [value] = value.write ++ [']'] := rfl

theorem writeItems_cons_cons : writeItems (value :: next :: items) = value.write ++ ',' :: writeItems (next :: items) := rfl

theorem writeMembers_singleton : writeMembers [(key, value)] = quote key ++ ':' :: value.write ++ ['\x7d'] := rfl

end Write

def toText (value : Json) : String := String.ofList value.write

example : toText (.array [.object [("a", .null)], .string "\n"]) = "[\x7b\"a\":null\x7d,\"\\n\"]" := by decide

end Json
end Srh.Lib
