import LanguageHub.Error
import LanguageHub.Uri

/-!
# File patterns

A pattern is matched against the bytes of a whole path. `?` stands for any byte and `*`
for any run of bytes, slashes included; `**` between slashes stands for any number of
directories; brackets hold a set of bytes and braces hold alternatives.
-/

namespace LanguageHub.Glob

inductive Token where
  | literal (c : Char)
  | anyByte
  | anyRun
  /-- At the start: nothing, a slash, or any directories. -/
  | leadingDirectories
  /-- At the end: a slash and anything. -/
  | trailingDirectories
  /-- In the middle: a slash, with any directories after it. -/
  | innerDirectories
  | byteClass (negated : Bool) (ranges : List (Char × Char))
  | alternatives (branches : List (List Token))
  deriving Repr, Inhabited

inductive Fault where
  | unclosedClass
  | invalidRange (first last : Char)
  | unopenedAlternatives
  | unclosedAlternatives
  | danglingEscape
  deriving DecidableEq, Repr

def Fault.reason : Fault → String
  | unclosedClass => "unclosed character class; missing ']'"
  | invalidRange a b => s!"invalid range; '{a}' > '{b}'"
  | unopenedAlternatives =>
    "unopened alternate group; missing '\x7b' (maybe escape '\x7d' with '[\x7d]'?)"
  | unclosedAlternatives =>
    "unclosed alternate group; missing '\x7d' (maybe escape '\x7b' with '[\x7b]'?)"
  | danglingEscape => "dangling '\\'"

def Fault.message (pattern : String) (f : Fault) : String :=
  s!"error parsing glob '{pattern}': {f.reason}"

/-! ## Reading patterns -/

/-- An open group of alternatives: the tokens before it and its finished branches. -/
structure Group where
  before : List Token
  finished : List (List Token)

/-- The branch that is being read and the groups around it; the newest token comes first. -/
structure Draft where
  current : List Token
  groups : List Group

/-- A bracket expression that is being read; the newest range comes first. -/
structure ClassDraft where
  negated : Bool
  first : Bool
  inRange : Bool
  ranges : List (Char × Char)

inductive Mode where
  | plain
  | escaped
  /-- Right after an opening bracket. -/
  | classStart
  | inClass (d : ClassDraft)

namespace Draft

def push (d : Draft) (t : Token) : Draft := { d with current := t :: d.current }

/-- Two stars that do not stand for directories. -/
def pushRuns (d : Draft) : Draft := (d.push .anyRun).push .anyRun

def openGroup (d : Draft) : Draft := ⟨[], ⟨d.current, []⟩ :: d.groups⟩

def nextBranch (d : Draft) : Draft :=
  match d.groups with
  | [] => d.push (.literal ',')
  | g :: gs => ⟨[], ⟨g.before, d.current.reverse :: g.finished⟩ :: gs⟩

def closeGroup (d : Draft) : Except Fault Draft :=
  match d.groups with
  | [] => .error .unopenedAlternatives
  | g :: gs =>
    .ok ⟨.alternatives (d.current.reverse :: g.finished).reverse :: g.before, gs⟩

/-- Puts `t` in place of the slash before it, unless directories are there already. -/
def pushDirectories (d : Draft) (t : Token) : Draft :=
  match d.current with
  | .leadingDirectories :: _ => d
  | .trailingDirectories :: _ => d
  | _ :: rest => { d with current := t :: rest }
  | [] => { d with current := [t] }

/-- Whether two stars after `prev` can stand for directories in the middle or at the end. -/
def allowsDirectories (d : Draft) (prev : Option Char) : Bool :=
  prev = some '/' || (!d.groups.isEmpty && (prev = some ',' || prev = some '\x7b'))

end Draft

/-- Ends the range that was begun with `c`. -/
def ClassDraft.endRange (d : ClassDraft) (c : Char) : Except Fault ClassDraft :=
  match d.ranges with
  | (a, _) :: rest =>
    if c < a then .error (.invalidRange a c)
    else .ok { d with ranges := (a, c) :: rest, inRange := false, first := false }
  | [] => .ok { d with ranges := [(c, c)], inRange := false, first := false }

def ClassDraft.add (d : ClassDraft) (c : Char) : Except Fault ClassDraft :=
  if d.inRange then d.endRange c
  else if c = '-' && !d.first then .ok { d with inRange := true }
  else .ok { d with ranges := (c, c) :: d.ranges, first := false }

/-- A hyphen right before the closing bracket stands for itself. -/
def ClassDraft.finish (d : ClassDraft) : Token :=
  .byteClass d.negated (if d.inRange then ('-', '-') :: d.ranges else d.ranges).reverse

/-- Reads the rest of a pattern, where `prev` is the character before it. -/
def scan : Mode → Option Char → Draft → List Char → Except Fault Draft
  | .plain, _, d, [] => .ok d
  | .escaped, _, _, [] => .error .danglingEscape
  | .classStart, _, _, [] => .error .unclosedClass
  | .inClass _, _, _, [] => .error .unclosedClass
  | .escaped, _, d, c :: rest => scan .plain (some c) (d.push (.literal c)) rest
  | .classStart, _, d, c :: rest =>
    if c = '!' || c = '^' then scan (.inClass ⟨true, true, false, []⟩) (some c) d rest
    else
      match ClassDraft.add ⟨false, true, false, []⟩ c with
      | .error f => .error f
      | .ok cd => scan (.inClass cd) (some c) d rest
  | .inClass cd, _, d, c :: rest =>
    if c = ']' && !cd.first then scan .plain (some c) (d.push cd.finish) rest
    else
      match cd.add c with
      | .error f => .error f
      | .ok cd => scan (.inClass cd) (some c) d rest
  | .plain, prev, d, '*' :: '*' :: rest =>
    if d.current.isEmpty then
      match rest with
      | [] => .ok (d.push .leadingDirectories)
      | '/' :: rest => scan .plain (some '/') (d.push .leadingDirectories) rest
      | rest => scan .plain (some '*') d.pushRuns rest
    else if d.allowsDirectories prev then
      match rest with
      | [] => .ok (d.pushDirectories .trailingDirectories)
      | '/' :: rest => scan .plain (some '/') (d.pushDirectories .innerDirectories) rest
      | c :: rest =>
        if !d.groups.isEmpty && (c = ',' || c = '\x7d') then
          scan .plain (some '*') (d.pushDirectories .trailingDirectories) (c :: rest)
        else scan .plain (some '*') d.pushRuns (c :: rest)
    else scan .plain (some '*') d.pushRuns rest
  | .plain, _, d, c :: rest =>
    match c with
    | '?' => scan .plain (some c) (d.push .anyByte) rest
    | '*' => scan .plain (some c) (d.push .anyRun) rest
    | '[' => scan .classStart (some c) d rest
    | '\x7b' => scan .plain (some c) d.openGroup rest
    | '\x7d' =>
      match d.closeGroup with
      | .error f => .error f
      | .ok d => scan .plain (some c) d rest
    | ',' => scan .plain (some c) d.nextBranch rest
    | '\\' => scan .escaped (some c) d rest
    | c => scan .plain (some c) (d.push (.literal c)) rest

/-- The tokens of a pattern. -/
def tokens (pattern : String) : Except Fault (List Token) :=
  match scan .plain none ⟨[], []⟩ pattern.toList with
  | .error f => .error f
  | .ok d => if d.groups.isEmpty then .ok d.current.reverse else .error .unclosedAlternatives

/-! ## Matching -/

def charBytes (c : Char) : List UInt8 := (String.singleton c).toUTF8.data.toList

/-- The byte ranges of a class. Only the last byte of its first character and the first
byte of its last one make a range; the other bytes count one by one. -/
def rangeBytes (first last : Char) : List (UInt8 × UInt8) :=
  let single (b : UInt8) := (b, b)
  if first = last then (charBytes first).map single
  else
    let a := charBytes first
    let b := charBytes last
    a.dropLast.map single ++ [(a.getLast?.getD 0, b.head?.getD 0)] ++ b.tail.map single

def classHas (negated : Bool) (ranges : List (Char × Char)) (byte : UInt8) : Bool :=
  let inside := (ranges.flatMap fun (a, b) => rangeBytes a b).any
    fun (low, high) => low ≤ byte && byte ≤ high
  inside != negated

/-- The positions after one more byte that `p` accepts. -/
def afterByte (path : Array UInt8) (p : UInt8 → Bool) (starts : List Nat) : List Nat :=
  starts.filterMap fun i => (path[i]?).bind fun b => if p b then some (i + 1) else none

/-- The positions after any run from the first of some positions. -/
def afterRun (path : Array UInt8) (starts : List Nat) : List Nat :=
  match starts.min? with
  | none => []
  | some low => (List.range (path.size + 1)).filter (low ≤ ·)

def isSlash (b : UInt8) : Bool := b = 47

def union (a b : List Nat) : List Nat := (a ++ b).eraseDups

mutual
/-- Nothing is written in the branch, so it is no alternative. -/
def isVoid : List Token → Bool
  | [] => true
  | t :: ts => isVoidToken t && isVoid ts

def isVoidToken : Token → Bool
  | .alternatives branches => allVoid branches
  | _ => false

def allVoid : List (List Token) → Bool
  | [] => true
  | b :: bs => isVoid b && allVoid bs
end

mutual
/-- The positions in the path after a token, from any of some positions. -/
def after (path : Array UInt8) : Token → List Nat → List Nat
  | .literal c, starts => (charBytes c).foldl (fun ps b => afterByte path (· == b) ps) starts
  | .anyByte, starts => afterByte path (fun _ => true) starts
  | .anyRun, starts => afterRun path starts
  | .leadingDirectories, starts =>
    union starts
      (union (afterByte path isSlash starts) (afterByte path isSlash (afterRun path starts)))
  | .trailingDirectories, starts => afterRun path (afterByte path isSlash starts)
  | .innerDirectories, starts =>
    let slashed := afterByte path isSlash starts
    union slashed (afterByte path isSlash (afterRun path slashed))
  | .byteClass negated ranges, starts => afterByte path (classHas negated ranges) starts
  | .alternatives branches, starts =>
    if allVoid branches then starts else afterAny path branches starts

def afterAll (path : Array UInt8) : List Token → List Nat → List Nat
  | [], starts => starts
  | t :: ts, starts => afterAll path ts (after path t starts)

def afterAny (path : Array UInt8) : List (List Token) → List Nat → List Nat
  | [], _ => []
  | b :: bs, starts =>
    if isVoid b then afterAny path bs starts
    else union (afterAll path b starts) (afterAny path bs starts)
end

/-! ## Patterns that ask for a name

A path whose last component is `..` has no name of its own. A pattern that is compared with
the name alone, or first of all with its extension, does not match such a path.
-/

/-- The text that tokens stand for, when each of them stands for itself. -/
def text? : List Token → Option (List Char)
  | [] => some []
  | .literal c :: ts => (text? ts).map (c :: ·)
  | _ => none

/-- The tokens end in a dot and then only characters that are no slash. -/
def endsInExtension (ts : List Token) : Bool :=
  let tail := ts.reverse.takeWhile fun t => match t with
    | .literal c => c != '/' && c != '.'
    | _ => false
  match ts.reverse.drop tail.length with
  | .literal '.' :: _ => true
  | _ => false

/-- A dot and then characters that are neither dots nor slashes. -/
def isExtension : List Char → Bool
  | '.' :: rest => rest.all fun c => c != '.' && c != '/'
  | _ => false

def asksForName (ts : List Token) : Bool :=
  match ts with
  | .leadingDirectories :: .anyRun :: rest | .anyRun :: rest =>
    match text? rest with
    | some ending => isExtension ending
    | none => endsInExtension ts
  | .leadingDirectories :: rest =>
    match text? rest with
    | some name => !name.isEmpty && !name.contains '/'
    | none => endsInExtension ts
  | ts => (text? ts).isNone && endsInExtension ts

/-- The last component of the path is `..`. -/
def lacksName (path : String) : Bool :=
  path.toList.reverse.takeWhile (· != '/') == ['.', '.']

/-- The whole path matches. Two stars alone match every path. -/
def isMatch (pattern : List Token) (path : String) : Bool :=
  match pattern with
  | [.leadingDirectories] => true
  | ts =>
    let bytes := path.toUTF8.data
    !(lacksName path && asksForName ts) && (afterAll bytes ts [0]).contains bytes.size

end LanguageHub.Glob

/-!
## Document matchers

A matcher holds patterns; a path matches when the whole of it or its file name fits one.
-/

namespace LanguageHub

structure DocumentMatcher where
  patterns : List String
  compiled : List (List Glob.Token)
  deriving Repr, Inhabited

namespace DocumentMatcher

def compile (pattern : String) : Except HubError (List Glob.Token) :=
  match Glob.tokens pattern with
  | .ok tokens => .ok tokens
  | .error f => .error (.invalidPattern pattern (f.message pattern))

def ofPatterns (patterns : List String) : Except HubError DocumentMatcher := do
  let compiled ← patterns.mapM compile
  pure ⟨patterns, compiled⟩

def fits (m : DocumentMatcher) (text : String) : Bool := m.compiled.any (Glob.isMatch · text)

def isMatch (m : DocumentMatcher) (path : String) : Bool :=
  m.fits path || (Path.fileName? path).any m.fits

def shown (m : DocumentMatcher) : String :=
  "DocumentMatcher(" ++ Text.quotedList m.patterns ++ ")"

end DocumentMatcher

end LanguageHub
