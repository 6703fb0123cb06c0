import LanguageHub.Json.Basic

/-!
# Written JSON

The compact form: no blanks, members in the order of the object, and escapes only
where the format asks for them.
-/

namespace LanguageHub.Json

/-! ## Strings -/

def hexDigit (n : Nat) : Char := Nat.digitChar (n % 16)

/-- A quote, a backslash and the control characters are escaped; all else stands for itself. -/
def escapeChar (c : Char) : List Char :=
  match c with
  | '"' => ['\\', '"']
  | '\\' => ['\\', '\\']
  | '\x08' => ['\\', 'b']
  | '\x0c' => ['\\', 'f']
  | '\n' => ['\\', 'n']
  | '\r' => ['\\', 'r']
  | '\t' => ['\\', 't']
  | c =>
    if c.toNat < 32 then ['\\', 'u', '0', '0', hexDigit (c.toNat / 16), hexDigit c.toNat]
    else [c]

def quote (s : String) : List Char := '"' :: (s.toList.flatMap escapeChar ++ ['"'])

/-! ## Numbers -/

def naturalText (n : Nat) : List Char := Nat.toDigits 10 n

def integerText (n : Int) : List Char :=
  if n < 0 then '-' :: naturalText n.natAbs else naturalText n.natAbs

/-- Positional from `1e-5` up to below `1e16`, always with a point; scientific beyond. -/
def decimalText (digits : List Char) (exponent : Int) : List Char :=
  let point := digits.length + exponent
  if 0 ≤ exponent ∧ point ≤ 16 then
    digits ++ List.replicate exponent.toNat '0' ++ ['.', '0']
  else if 0 < point ∧ point ≤ 16 then
    digits.take point.toNat ++ '.' :: digits.drop point.toNat
  else if -5 < point ∧ point ≤ 0 then
    '0' :: '.' :: List.replicate (-point).toNat '0' ++ digits
  else
    let mantissa := match digits with
      | [] => []
      | [d] => [d]
      | d :: rest => d :: '.' :: rest
    let e := point - 1
    mantissa ++ 'e' :: (if e < 0 then '-' else '+') :: naturalText e.natAbs

def doubleText (bits : UInt64) : List Char :=
  let d := Binary64.shortest (Binary64.magnitude bits)
  let sign := if Binary64.isNegative bits then ['-'] else []
  sign ++ (if d.digits = 0 then "0.0".toList else decimalText (naturalText d.digits) d.exponent)

def numberText : JsonNumber → List Char
  | .int n => integerText n
  | .double bits => if Binary64.isFinite bits then doubleText bits else "null".toList

/-! ## Values -/

mutual
/-- The characters of a value. -/
def text : Json → List Char
  | .null => "null".toList
  | .bool true => "true".toList
  | .bool false => "false".toList
  | .num n => numberText n
  | .str s => quote s
  | .arr items => '[' :: (itemsText items ++ [']'])
  | .obj fields => '{' :: (fieldsText fields ++ ['}'])

def itemsText : List Json → List Char
  | [] => []
  | [v] => v.text
  | v :: rest => v.text ++ ',' :: itemsText rest

def fieldsText : List (String × Json) → List Char
  | [] => []
  | [(k, v)] => quote k ++ ':' :: v.text
  | (k, v) :: rest => quote k ++ ':' :: (v.text ++ ',' :: fieldsText rest)
end

def render (v : Json) : String := String.ofList v.text

end LanguageHub.Json
