import Loopex.Erlang.Check
import Loopex.Erlang.ExternalFormat
import Loopex.Erlang.Utf8
import Loopex.Erlang.Numeral

/-!
# Frames of the wire

One line of the wire is one JSON object.  `Frame.decode` reads the payload of a frame without its newline,
`Frame.encode` writes a record as a frame.

The parser recurses on what is left of the payload; here that recursion takes fuel, and `Stop.unfinished`
says that it ran out.  A string is read character by character: `nextChar` is the clauses of `parse_string`
behind the bound on their count.
-/

namespace Loopex.Protocol.Frame

open Loopex.Erlang Loopex.Erlang.Term

def maxDepth : ℕ := 16
def maxMembers : ℕ := 1024
def maxStringBytes : ℕ := 131072
def integerMax : ℤ := 9007199254740991
def integerMin : ℤ := -9007199254740991
def outputRecordBytes : ℕ := 2097152

inductive Reason where
  | frameTooLarge | invalidUtf8 | notAnObject | trailingBytes | truncated | duplicateMember
  | depthExceeded | tooManyMembers | stringTooLarge | integerOutOfRange | numberNotAnInteger | malformed
  deriving DecidableEq

/-- Why no value was read: a refusal, an exception, or no fuel. -/
inductive Stop where
  | refused (reason : Reason)
  | raised
  | unfinished
  deriving DecidableEq

def refuse {α : Type} (reason : Reason) : Except Stop α := .error (.refused reason)

/-! ## characters and numbers -/

/-- `skip_space`. -/
def skipSpace : Bytes → Bytes
  | [] => []
  | b :: bs => if b = 32 || b = 9 || b = 10 || b = 13 then skipSpace bs else b :: bs

/-- What the clauses of `parse_string` find. -/
inductive Next where
  | close (rest : Bytes)
  | char (code : ℕ) (rest : Bytes)
  | stop (s : Stop)

/-- The second half of an escaped pair, in `parse_surrogate`. -/
def parseSurrogate (high : ℕ) : Bytes → Next
  | 92 :: 117 :: a :: b :: c :: d :: rest =>
    match integerParse 16 [a, b, c, d] with
    | some (low, []) =>
      if 0xDC00 ≤ low ∧ low ≤ 0xDFFF then
        .char (0x10000 + (high - 0xD800) * 0x400 + (low.toNat - 0xDC00)) rest
      else .stop (.refused .malformed)
    | _ => .stop (.refused .malformed)
  | _ => .stop (.refused .malformed)

/-- The four characters of an escape. -/
def unicodeEscape (hex rest : Bytes) : Next :=
  match integerParse 16 hex with
  | some (code, []) =>
    if 0xD800 ≤ code ∧ code ≤ 0xDBFF then parseSurrogate code.toNat rest
    else if 0xDC00 ≤ code ∧ code ≤ 0xDFFF then .stop (.refused .malformed)
    -- `<<code::utf8>>` of a negative number
    else if code < 0 then .stop .raised
    else .char code.toNat rest
  | _ => .stop (.refused .malformed)

/-- The escapes of two characters. -/
def simpleEscape (escape : UInt8) (rest : Bytes) : Next :=
  if escape = 34 then .char 34 rest
  else if escape = 92 then .char 92 rest
  else if escape = 47 then .char 47 rest
  else if escape = 98 then .char 8 rest
  else if escape = 102 then .char 12 rest
  else if escape = 110 then .char 10 rest
  else if escape = 114 then .char 13 rest
  else if escape = 116 then .char 9 rest
  else .stop (.refused .malformed)

/-- A character that stands for itself. -/
def plainChar (input : Bytes) : Next :=
  match input with
  | [] => .stop (.refused .truncated)
  | b :: _ =>
    if b < 0x20 then .stop (.refused .malformed)
    else match utf8Decode input with
      | some (code, rest) => .char code rest
      | none => .stop (.refused .invalidUtf8)

/-- The clauses of `parse_string`. -/
def nextChar : Bytes → Next
  | 34 :: rest => .close rest
  | 92 :: 117 :: a :: b :: c :: d :: rest => unicodeEscape [a, b, c, d] rest
  | 92 :: escape :: rest => simpleEscape escape rest
  | input => plainChar input

/-- `parse_string`; `acc` is the characters read, the last one first. -/
def parseString : ℕ → Bytes → List Bytes → ℕ → Except Stop (Bytes × Bytes)
  | 0, _, _, _ => .error .unfinished
  | fuel + 1, input, acc, count =>
    if count > maxStringBytes then refuse .stringTooLarge
    else match nextChar input with
      | .close rest =>
        let decoded := acc.reverse.flatten
        if decoded.length > maxStringBytes then refuse .stringTooLarge
        else if !validUtf8 decoded then refuse .invalidUtf8
        else .ok (decoded, rest)
      | .char code rest => parseString fuel rest (utf8Encode code :: acc) (count + 1)
      | .stop s => .error s

def isNumberByte (b : UInt8) : Bool :=
  b = 45 || b = 43 || b = 46 || b = 101 || b = 69 || (48 ≤ b && b ≤ 57)

/-- `take_number`. -/
def takeNumber (input : Bytes) : Bytes × Bytes := input.span isNumberByte

/-- `parse_number`. -/
def parseNumber (input : Bytes) : Except Stop (Term × Bytes) :=
  let (digits, rest) := takeNumber input
  if digits = [] then refuse .malformed
  else if digits.any fun b => b = 46 || b = 101 || b = 69 then refuse .numberNotAnInteger
  else match integerParse 10 digits with
    | some (value, []) =>
      if integerMin ≤ value ∧ value ≤ integerMax then .ok (.int value, rest) else refuse .integerOutOfRange
    | _ => refuse .malformed

/-! ## values -/

/-- `Map.new` of the members of an object. -/
def newMap (members : List (Bytes × Term)) : Term :=
  .map (entriesOf (members.map fun m => (.binary m.1, m.2)))

mutual
/-- `parse_value`. -/
def parseValue : ℕ → Bytes → ℕ → Except Stop (Term × Bytes)
  | 0, _, _ => .error .unfinished
  | fuel + 1, input, depth =>
    match input with
    | 123 :: rest =>
      if depth > maxDepth then refuse .depthExceeded
      else do
        let (members, rest) ← parseMembers fuel (skipSpace rest) depth []
        if (members.map Prod.fst).Nodup then .ok (newMap members, rest) else refuse .duplicateMember
    | 91 :: rest =>
      if depth > maxDepth then refuse .depthExceeded
      else do
        let (values, rest) ← parseElements fuel (skipSpace rest) depth []
        .ok (.list values, rest)
    | 34 :: rest => do
      let (decoded, rest) ← parseString fuel rest [] 0
      .ok (.binary decoded, rest)
    | 116 :: 114 :: 117 :: 101 :: rest => .ok (sym "true", rest)
    | 102 :: 97 :: 108 :: 115 :: 101 :: rest => .ok (sym "false", rest)
    | 110 :: 117 :: 108 :: 108 :: rest => .ok (nil, rest)
    | b :: rest =>
      if b = 45 || (48 ≤ b && b ≤ 57) then parseNumber (b :: rest) else refuse .malformed
    | [] => refuse .truncated
/-- `parse_members`. -/
def parseMembers : ℕ → Bytes → ℕ → List (Bytes × Term) → Except Stop (List (Bytes × Term) × Bytes)
  | 0, _, _, _ => .error .unfinished
  | fuel + 1, input, depth, acc =>
    match input, acc with
    | 125 :: rest, [] => .ok ([], rest)
    | input, acc =>
      if acc.length ≥ maxMembers then refuse .tooManyMembers
      else match input with
        | 34 :: rest => do
          let (key, rest) ← parseString fuel rest [] 0
          match skipSpace rest with
          | 58 :: rest => do
            let (value, rest) ← parseValue fuel (skipSpace rest) (depth + 1)
            match skipSpace rest with
            | 44 :: rest => parseMembers fuel (skipSpace rest) depth ((key, value) :: acc)
            | 125 :: rest => .ok (((key, value) :: acc).reverse, rest)
            | [] => refuse .truncated
            | _ => refuse .malformed
          | [] => refuse .truncated
          | _ => refuse .malformed
        | [] => refuse .truncated
        | _ => refuse .malformed
/-- `parse_elements`. -/
def parseElements : ℕ → Bytes → ℕ → List Term → Except Stop (List Term × Bytes)
  | 0, _, _, _ => .error .unfinished
  | fuel + 1, input, depth, acc =>
    match input, acc with
    | 93 :: rest, [] => .ok ([], rest)
    | input, acc =>
      if acc.length ≥ maxMembers then refuse .tooManyMembers
      else do
        let (value, rest) ← parseValue fuel input (depth + 1)
        match skipSpace rest with
        | 44 :: rest => parseElements fuel (skipSpace rest) depth (value :: acc)
        | 93 :: rest => .ok ((value :: acc).reverse, rest)
        | [] => refuse .truncated
        | _ => refuse .malformed
end

/-- `decode_object_frame`. -/
def decodeObjectFrame (fuel : ℕ) (payload : Bytes) : Except Stop Term :=
  match payload with
  | 123 :: _ => do
    let (value, rest) ← parseValue fuel payload 1
    if rest = [] then .ok value else refuse .trailingBytes
  | [] => refuse .truncated
  | _ => refuse .notAnObject

/-- Fuel for every recursion on a payload. -/
def enough (payload : Bytes) : ℕ := 2 * payload.length + 2

/-- `decode`; a limit of zero has no clause. -/
def decode (payload : Bytes) (limit : ℕ) : Except Stop Term :=
  if limit = 0 then .error .raised
  else if payload.length > limit then refuse .frameTooLarge
  else if !validUtf8 payload then refuse .invalidUtf8
  else decodeObjectFrame (enough payload) payload

end Loopex.Protocol.Frame
