import LanguageHub.Text.Split

/-!
# Document identifiers

A document is known to servers by a URI. One on disk has a `file` URI made from its
absolute path: empty and `.` components vanish, `..` stays, and the bytes that a path
segment may not show are percent-encoded.
-/

namespace LanguageHub

namespace Uri

/-! ## Character classes -/

def isLetter (c : Char) : Bool := ('a' ≤ c ∧ c ≤ 'z') ∨ ('A' ≤ c ∧ c ≤ 'Z')

def isDigit (c : Char) : Bool := '0' ≤ c ∧ c ≤ '9'

def isHexDigit (c : Char) : Bool := isDigit c ∨ ('a' ≤ c ∧ c ≤ 'f') ∨ ('A' ≤ c ∧ c ≤ 'F')

def isSchemeChar (c : Char) : Bool := isLetter c || isDigit c || "+-.".toList.contains c

def isUnreserved (c : Char) : Bool := isLetter c || isDigit c || "-._~".toList.contains c

def isSubDelimiter (c : Char) : Bool := "!$&'()*+,;=".toList.contains c

def isNameChar (c : Char) : Bool := isUnreserved c || isSubDelimiter c

def isUserInfoChar (c : Char) : Bool := isNameChar c || c = ':'

def isPathChar (c : Char) : Bool := isNameChar c || c = ':' || c = '@' || c = '/'

def isQueryChar (c : Char) : Bool := isPathChar c || c = '?'

/-! ## Grammar -/

/-- Why a text is not a URI, with the byte where that shows. -/
inductive Fault where
  | invalidOctet (index : Nat)
  | unexpectedChar (index : Nat)
  | invalidHost (index : Nat)
  deriving DecidableEq, Repr

def Fault.shown : Fault → String
  | invalidOctet i => s!"ParseError \x7b index: {i}, kind: InvalidOctet \x7d"
  | unexpectedChar i => s!"ParseError \x7b index: {i}, kind: UnexpectedChar \x7d"
  | invalidHost i => s!"ParseError \x7b index: {i}, kind: InvalidIpLiteral \x7d"

/-- Characters of a class, with percent-encoded bytes among them, from byte `index` on; the
rest begins with the first character that fits neither. -/
def span (allowed : Char → Bool) : Nat → List Char → Except Fault (Nat × List Char)
  | index, '%' :: a :: b :: rest =>
    if isHexDigit a && isHexDigit b then span allowed (index + 3) rest
    else .error (.invalidOctet index)
  | index, '%' :: _ => .error (.invalidOctet index)
  | index, c :: rest =>
    if allowed c then span allowed (index + c.utf8Size) rest else .ok (index, c :: rest)
  | index, [] => .ok (index, [])

/-- The text must end here. -/
def atEnd (index : Nat) (rest : List Char) : Except Fault Unit :=
  if rest.isEmpty then .ok () else .error (.unexpectedChar index)

def checkFragment (index : Nat) (rest : List Char) : Except Fault Unit :=
  match rest with
  | '#' :: t => do
    let (index, rest) ← span isQueryChar (index + 1) t
    atEnd index rest
  | rest => atEnd index rest

def checkQuery (index : Nat) (rest : List Char) : Except Fault Unit :=
  match rest with
  | '?' :: t => do
    let (index, rest) ← span isQueryChar (index + 1) t
    checkFragment index rest
  | rest => checkFragment index rest

def checkPath (index : Nat) (rest : List Char) : Except Fault Unit := do
  let (index, rest) ← span isPathChar index rest
  checkQuery index rest

/-- After an authority the path is empty or starts with a slash. -/
def checkRootedPath (index : Nat) (rest : List Char) : Except Fault Unit :=
  match rest with
  | '/' :: _ => checkPath index rest
  | rest => checkQuery index rest

def checkPort (index : Nat) (rest : List Char) : Except Fault Unit :=
  match rest with
  | ':' :: t =>
    let digits := t.takeWhile isDigit
    checkRootedPath (index + 1 + digits.length) (t.drop digits.length)
  | rest => checkRootedPath index rest

def isAddressChar (c : Char) : Bool := isHexDigit c || c = ':' || c = '.'

/-- A host in brackets or a registered name, then the port. -/
def checkHost (index : Nat) (rest : List Char) : Except Fault Unit :=
  match rest with
  | '[' :: t =>
    let address := t.takeWhile isAddressChar
    match t.drop address.length with
    | ']' :: u =>
      if address.contains ':' then checkPort (index + address.length + 2) u
      else .error (.invalidHost index)
    | _ => .error (.invalidHost index)
  | rest => do
    let (index, rest) ← span isNameChar index rest
    checkPort index rest

def checkAuthority (index : Nat) (rest : List Char) : Except Fault Unit := do
  let (stop, tail) ← span isUserInfoChar index rest
  match tail with
  | '@' :: t => checkHost (stop + 1) t
  | _ => checkHost index rest

/-- A reference without a scheme: its first segment has no colon. -/
def checkRelative (index : Nat) (rest : List Char) : Except Fault Unit := do
  let (index, rest) ← span (fun c => isPathChar c && c != ':' && c != '/') index rest
  match rest with
  | ':' :: _ => .error (.unexpectedChar index)
  | rest => checkPath index rest

/-- Checks a URI or relative reference. -/
def check (text : List Char) : Except Fault Unit :=
  let scheme := text.takeWhile isSchemeChar
  match text.drop scheme.length with
  | ':' :: '/' :: '/' :: t =>
    if scheme.head?.any isLetter then checkAuthority (scheme.length + 3) t
    else .error (.unexpectedChar 0)
  | ':' :: t =>
    if scheme.head?.any isLetter then checkPath (scheme.length + 1) t
    else .error (.unexpectedChar 0)
  | rest =>
    if scheme.isEmpty then
      match rest with
      | '/' :: '/' :: t => checkAuthority 2 t
      | rest => checkRelative 0 rest
    else checkRelative 0 text

def isValid (text : String) : Bool :=
  match check text.toList with
  | .ok _ => true
  | .error _ => false

end Uri

/-! ## Paths -/

namespace Path

def isAbsolute (path : String) : Bool := path.toList.head? = some '/'

/-- The components of a path: empty parts vanish, and so does `.` except at the start of a
relative path. -/
def components (path : String) : List String :=
  let parts := Text.splitOn '/' path.toList
  let named := fun (p : List Char) => p ≠ [] && p ≠ ['.']
  let kept :=
    match parts with
    | ['.'] :: rest => ['.'] :: rest.filter named
    | parts => parts.filter named
  kept.map String.ofList

/-- The last component, unless it is `..` or there is none. -/
def fileName? (path : String) : Option String :=
  match (components path).getLast? with
  | some name => if name = ".." ∨ name = "." then none else some name
  | none => none

/-- The components below the root, after the root itself when the path has one. -/
def steps (path : String) : List String :=
  if isAbsolute path then "/" :: components path else components path

/-- Parts of a path's text from its end on, without those that name nothing. The first part
stays: it tells an absolute path from a relative one. -/
def trimParts : List (List Char) → List (List Char)
  | [] => []
  | [first] => [first]
  | part :: before => if part = [] ∨ part = ['.'] then trimParts before else part :: before

/-- The path without its last component, otherwise as it is written. -/
def parent? (path : String) : Option String :=
  if (components path).isEmpty then none
  else
    match trimParts (Text.splitOn '/' path.toList).reverse with
    | _ :: before =>
      let kept := "/".intercalate ((trimParts before).reverse.map String.ofList)
      some (if isAbsolute path ∧ kept = "" then "/" else kept)
    | [] => none

/-- Whether the components of `root` begin those of `path`. -/
def startsWith (path root : String) : Bool := (steps root).isPrefixOf (steps path)

/-- Two paths with the same components are the same. -/
def same (a b : String) : Bool := isAbsolute a == isAbsolute b && components a == components b

end Path

namespace Uri

def upperHexDigit (n : Nat) : Char := (Nat.digitChar (n % 16)).toUpper

def percentByte (b : UInt8) : List Char :=
  ['%', upperHexDigit (b.toNat / 16), upperHexDigit b.toNat]

/-- What a path segment shows as it is: visible ASCII but for a few delimiters. -/
def isSegmentChar (c : Char) : Bool :=
  0x20 < c.toNat ∧ c.toNat < 0x7f ∧ !"\"<>`#?/%\\\x7b\x7d".toList.contains c

def encodeSegment (segment : String) : List Char :=
  segment.toList.flatMap fun c =>
    if isSegmentChar c then [c]
    else (String.singleton c).toUTF8.data.toList.flatMap percentByte

/-- The `file` URI of an absolute path, before it is checked. -/
def fileUri (path : String) : String :=
  let segments := (Path.components path).map encodeSegment
  String.ofList ("file://".toList ++
    if segments.isEmpty then ['/'] else segments.flatMap ('/' :: ·))

/-- The URI of a path, or why it has none. -/
def ofPath (path : String) : Except String String :=
  if !Path.isAbsolute path then .error path
  else
    let uri := fileUri path
    match check uri.toList with
    | .ok _ => .ok uri
    | .error fault => .error s!"{path}: {fault.shown}"

end Uri

end LanguageHub
