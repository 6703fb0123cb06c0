import LanguageHub.Text.Printable

/-!
# Quoted text

Messages quote text so that it stays on one line and shows what cannot be seen: quotes
and backslashes get a backslash, and a character without a shape of its own is shown
by its code point.
-/

namespace LanguageHub.Text

def hexText (n : Nat) : String := String.ofList (Nat.toDigits 16 n)

def quotedChar (c : Char) : String :=
  match c with
  | '"' => "\\\""
  | '\\' => "\\\\"
  | '\n' => "\\n"
  | '\r' => "\\r"
  | '\t' => "\\t"
  | '\x00' => "\\0"
  | c => if isPrintable c then String.singleton c else "\\u\x7b" ++ hexText c.toNat ++ "\x7d"

/-- The text between quotes. -/
def quoted (s : String) : String := "\"" ++ String.join (s.toList.map quotedChar) ++ "\""

/-- Quoted texts in brackets. -/
def quotedList (items : List String) : String :=
  "[" ++ ", ".intercalate (items.map quoted) ++ "]"

/-- A path between quotes, in which single quotes get a backslash as well. -/
def quotedPath (path : String) : String :=
  let shown (c : Char) := if c = '\'' then "\\'" else quotedChar c
  "\"" ++ String.join (path.toList.map shown) ++ "\""

/-- A path that may be missing, in the way messages show it. -/
def quotedPathOption (path : Option String) : String :=
  match path with
  | none => "None"
  | some p => "Some(" ++ quotedPath p ++ ")"

end LanguageHub.Text
