import JobTrail.Http.MediaType
import JobTrail.Text.Charset
import JobTrail.Text.Percent

/-! # Forms in parts

A body of parts between boundary lines. What stands before the first boundary is skipped, and the
part after the boundary that ends with `--` is not looked at. Each part has headers, a blank line and
data up to the next boundary.
-/

namespace JobTrail

structure Part where
  name : Option String
  fileName : Option String
  /-- How a text is encoded. -/
  charset : Charset
  data : List UInt8

inductive MultipartError where
  /-- The body could not be read to its end. -/
  | unreadable
  | incompleteStream
  | malformedHeaders
  | incompleteData (name : Option String)
deriving DecidableEq, Repr

def quotedChar (c : Char) : List Char :=
  if c = '"' then ['\\', '"'] else if c = '\\' then ['\\', '\\'] else [c]

def MultipartError.message : MultipartError → String
  | unreadable => "failed to read stream"
  | incompleteStream => "incomplete multipart stream"
  | malformedHeaders => "failed to read headers"
  | incompleteData name =>
    "field \"" ++ String.ofList ((name.getD "<unknown>").toList.flatMap quotedChar)
      ++ "\" received with incomplete data"

namespace Multipart

def bytes (s : String) : List UInt8 := s.toUTF8.data.toList

/-- Splits at the first occurrence of a pattern: what stands before it, in reverse behind `before`,
and the rest that starts with it. -/
def splitAt? (pattern before : List UInt8) (rest : List UInt8) :
    Option (List UInt8 × List UInt8) :=
  if pattern.isPrefixOf rest then some (before.reverse, rest)
  else
    match rest with
    | [] => none
    | b :: rest => splitAt? pattern (b :: before) rest

def lineEnd : List UInt8 := [0x0D, 0x0A]

def after? : List UInt8 → List UInt8 → Option (List UInt8)
  | [], rest => some rest
  | a :: pattern, b :: rest => if a = b then after? pattern rest else none
  | _ :: _, [] => none

/-! ## Headers of a part -/

def isNameByte (b : UInt8) : Bool := MediaType.isToken (Char.ofNat b.toNat) && b < 0x80

def isValueByte (b : UInt8) : Bool := b == 0x09 || (0x20 ≤ b && b != 0x7F)

def isGap (b : UInt8) : Bool := b == 0x20 || b == 0x09

def trimGaps (bs : List UInt8) : List UInt8 :=
  ((bs.dropWhile isGap).reverse.dropWhile isGap).reverse

def headerLine? (line : List UInt8) : Option (String × List UInt8) :=
  let name := line.takeWhile isNameByte
  match line.dropWhile isNameByte with
  | 0x3A :: value =>
    let value := trimGaps value
    if name.isEmpty ∨ ¬ value.all isValueByte then none
    else some (lowercase (Utf8.decodeLossy name), value)
  | _ => none

def headerLines (block : List UInt8) : List (List UInt8) :=
  let lines := (block.splitOn 0x0A).map fun line =>
    if line.getLast? = some 0x0D then line.dropLast else line
  lines.takeWhile fun line => !line.isEmpty

def headerLimit : Nat := 32

def headers? (block : List UInt8) : Option (List (String × List UInt8)) :=
  let lines := headerLines block
  if headerLimit < lines.length then none else lines.mapM headerLine?

/-- The end of a quoted value: the first quote that no backslash precedes. -/
def quotedValue? (before : List UInt8) : List UInt8 → Option (List UInt8)
  | [] => none
  | 0x22 :: rest =>
    match before with
    | 0x5C :: earlier => quotedValue? (0x22 :: earlier) rest
    | _ => some before.reverse
  | b :: rest => quotedValue? (b :: before) rest

def isSeparator (b : UInt8) : Bool := b == 0x3B || b == 0x20 || (0x09 ≤ b && b ≤ 0x0D && b != 0x0B)

/-- The value of an attribute such as `name=` in a header: quoted, or percent encoded up to a
semicolon. An occurrence inside a longer word is skipped whole, and what follows it is read like a
header of its own. -/
def attribute? (mark : List UInt8) (skip : Nat) (previous : Option UInt8) :
    List UInt8 → Option (List UInt8)
  | [] => none
  | b :: rest =>
    match skip with
    | skip + 1 => attribute? mark skip none rest
    | 0 =>
      match after? mark (b :: rest) with
      | none => attribute? mark 0 (some b) rest
      | some value =>
        if previous.all isSeparator then
          match value with
          | 0x22 :: quoted => quotedValue? [] quoted
          | _ => some (Percent.decode (value.takeWhile (· ≠ 0x3B)))
        else attribute? mark (mark.length - 1) none rest

def textAttribute? (mark : String) (header : List UInt8) : Option String :=
  (attribute? (bytes mark) 0 none header).bind fun value => String.fromUTF8? ⟨value.toArray⟩

def charsetOf (headers : List (String × List UInt8)) : Charset :=
  let label := do
    let value ← headers.lookup "content-type"
    let media ← MediaType.parse? (Utf8.decodeLossy value)
    media.param? "charset"
  (label.map Charset.ofLabel).getD .utf8

/-! ## Parts -/

/-- The parts from a boundary on. Each starts with that boundary, so the fuel is the number of
bytes. -/
def partsFrom (boundary : List UInt8) : Nat → List UInt8 → Except MultipartError (List Part)
  | 0, _ => .error .incompleteStream
  | fuel + 1, rest => do
    let line ← ((after? boundary rest).elim (.error .incompleteStream) .ok :
      Except MultipartError (List UInt8))
    match line with
    | 0x2D :: 0x2D :: _ => .ok []
    | _ =>
      match after? lineEnd (line.dropWhile isGap) with
      | none => .error .incompleteStream
      | some block =>
        match splitAt? (lineEnd ++ lineEnd) [] block with
        | none => .error .incompleteStream
        | some (block, rest) =>
          match headers? block with
          | none => .error .malformedHeaders
          | some headers =>
            let disposition := (headers.lookup "content-disposition").getD []
            let name := textAttribute? "name=" disposition
            match splitAt? (lineEnd ++ boundary) [] (rest.drop 4) with
            | none => .error (.incompleteData name)
            | some (data, rest) =>
              let part : Part :=
                ⟨name, textAttribute? "filename=" disposition, charsetOf headers, data⟩
              return part :: (← partsFrom boundary fuel (rest.drop 2))

def parts (boundary : String) (body : List UInt8) : Except MultipartError (List Part) :=
  let mark := bytes "--" ++ bytes boundary
  match splitAt? mark [] body with
  | none => .error .incompleteStream
  | some (_, rest) => partsFrom mark (body.length + 1) rest

end Multipart

structure SentFile where
  fileName : Option String
  bytes : ByteArray

structure SentForm where
  fields : Record
  file : Option SentFile

/-- Parts without a name are skipped, and of several parts with one name the last counts. -/
def SentForm.ofParts (parts : List Part) : SentForm :=
  parts.foldl (fun form part =>
    match part.name with
    | none => form
    | some "file" => { form with file := some ⟨part.fileName, ⟨part.data.toArray⟩⟩ }
    | some name =>
      { form with fields := form.fields.insert name (.text (part.charset.decode part.data)) }) ⟨[], none⟩

end JobTrail
