import LanguageHub.Text.Split

/-!
# Frames

Messages travel as frames: header lines, a blank line and a body whose length in bytes
the header `Content-Length` gives. A receive buffer yields its first frame as soon as all
of it is there. A header block without a length can never be completed, so it is dropped.
-/

namespace LanguageHub.Frame

abbrev Bytes := List UInt8

def bytesOf (text : List Char) : Bytes := text.flatMap String.utf8EncodeChar

def textOf? (bytes : Bytes) : Option String := String.fromUTF8? ⟨bytes.toArray⟩

/-! ## Writing -/

def header (bodyLength : Nat) : List Char :=
  "Content-Length: ".toList ++ Nat.toDigits 10 bodyLength ++ "\r\n\r\n".toList

/-- The frame around the characters of a body. -/
def around (body : List Char) : Bytes :=
  let bytes := bytesOf body
  bytesOf (header bytes.length) ++ bytes

/-- The frame around a body. -/
def encode (body : String) : Bytes := around body.toList

/-! ## Reading -/

inductive Fault where
  /-- The header block is not UTF-8. -/
  | headerText
  /-- A length that is no number of 64 bits. -/
  | length
  /-- The body is not UTF-8. -/
  | bodyText
  /-- The end of the body is beyond every address, and the reader breaks down. -/
  | beyondMemory
  deriving DecidableEq, Repr

def Fault.message : Fault → String
  | headerText => "Failed to parse headers as UTF-8"
  | length => "Invalid Content-Length value"
  | bodyText => "Message body is not UTF-8"
  | beyondMemory => "frame length out of range"

/-- The bytes before the first blank line and those after it. -/
def splitHead? : Bytes → Option (Bytes × Bytes)
  | 13 :: 10 :: 13 :: 10 :: rest => some ([], rest)
  | b :: rest => (splitHead? rest).map fun (head, tail) => (b :: head, tail)
  | [] => none

def addressLimit : Nat := UInt64.size

/-- The length that a header line gives; nothing when the line is about something else. -/
def lengthOfLine (line : List Char) : Except Fault (Option Nat) :=
  match Text.splitOnce? ':' line with
  | none => .ok none
  | some (name, value) =>
    if Text.lowered (Text.trim name) ≠ "content-length".toList then .ok none
    else
      match Text.natural? (Text.trim value) with
      | some n => if n < addressLimit then .ok (some n) else .error .length
      | none => .error .length

/-- The length that the header lines give: the last one counts, and each must be a number. -/
def lengthOfLines : List (List Char) → Except Fault (Option Nat)
  | [] => .ok none
  | line :: rest =>
    match lengthOfLine line with
    | .error e => .error e
    | .ok first => (lengthOfLines rest).map fun last => last.or first

/-- The length that a header block gives. -/
def lengthOfHead (head : Bytes) : Except Fault (Option Nat) :=
  match textOf? head with
  | none => .error .headerText
  | some text => lengthOfLines (Text.splitOn '\n' text.toList)

/-- The body of the first frame in the buffer, when all of it is there, and the buffer
after that. -/
def take (buffer : Bytes) : Except Fault (Option String) × Bytes :=
  match splitHead? buffer with
  | none => (.ok none, buffer)
  | some (head, rest) =>
    match lengthOfHead head with
    | .error e => (.error e, buffer)
    | .ok none => (.ok none, rest)
    | .ok (some n) =>
      if addressLimit ≤ head.length + 4 + n then (.error .beyondMemory, buffer)
      else if rest.length < n then (.ok none, buffer)
      else
        match textOf? (rest.take n) with
        | none => (.error .bodyText, rest.drop n)
        | some body => (.ok (some body), rest.drop n)

/-! ## Reading all there is -/

theorem length_splitHead? {buffer head rest : Bytes} (h : splitHead? buffer = some (head, rest)) :
    buffer.length = head.length + 4 + rest.length := by
  fun_induction splitHead? buffer generalizing head rest with
  | case1 =>
    simp only [Option.some.injEq, Prod.mk.injEq] at h
    obtain ⟨rfl, rfl⟩ := h
    simp
    omega
  | case2 b tail _ ih =>
    simp only [Option.map_eq_some_iff, Prod.mk.injEq] at h
    obtain ⟨⟨a, c⟩, h, rfl, rfl⟩ := h
    have := ih h
    simp only [List.length_cons]
    omega
  | case3 => simp at h

/-- A body takes bytes from the buffer. -/
theorem length_take_lt {buffer : Bytes} {body : String} {rest : Bytes}
    (h : take buffer = (.ok (some body), rest)) : rest.length < buffer.length := by
  unfold take at h
  split at h
  · simp at h
  · next head tail hs =>
    have := length_splitHead? hs
    split at h
    · simp at h
    · simp at h
    · split at h
      · simp at h
      · split at h
        · simp at h
        · split at h <;> simp only [Prod.mk.injEq, Except.ok.injEq, Option.some.injEq,
            reduceCtorEq, false_and] at h
          obtain ⟨_, rfl⟩ := h
          simp only [List.length_drop]
          omega

/-- How a receive buffer looks after everything was taken that could be. -/
inductive Drained where
  /-- What is left waits for more. -/
  | waiting (rest : Bytes)
  /-- Something was unreadable, and the buffer was emptied. -/
  | cleared (fault : Fault)
  /-- The reader broke down. -/
  | broken
  deriving Repr

/-- Takes bodies until none is complete. A fault empties the buffer. -/
def drain (buffer : Bytes) : List String × Drained :=
  match h : take buffer with
  | (.ok (some body), rest) =>
    have := length_take_lt h
    let (bodies, stop) := drain rest
    (body :: bodies, stop)
  | (.ok none, rest) => ([], .waiting rest)
  | (.error .beyondMemory, _) => ([], .broken)
  | (.error fault, _) => ([], .cleared fault)
termination_by buffer.length

end LanguageHub.Frame
