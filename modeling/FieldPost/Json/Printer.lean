import FieldPost.Json.Text

/-!
JSON values as texts without space, entries in the order they are kept in.
-/

namespace FieldPost.Json

mutual

def chars : Json → List Char
  | .null => "null".toList
  | .bool true => "true".toList
  | .bool false => "false".toList
  | .number value => value.text.toList
  | .string value => JsonText.write value
  | .array items => '[' :: (itemChars items ++ [']'])
  | .object entries => '\x7b' :: (entryChars entries ++ ['\x7d'])

def itemChars : List Json → List Char
  | [] => []
  | [item] => item.chars
  | item :: rest => item.chars ++ ',' :: itemChars rest

def entryChars : List (String × Json) → List Char
  | [] => []
  | [(key, value)] => JsonText.write key ++ ':' :: value.chars
  | (key, value) :: rest => JsonText.write key ++ ':' :: value.chars ++ ',' :: entryChars rest

end

def text (value : Json) : String := String.ofList value.chars

end FieldPost.Json
