import RegisterMap.Markup.CodePage
import RegisterMap.Markup.Document

/-!
# Encoded documents

A document arrives as bytes. A byte order mark tells UTF-8 and the two orders of UTF-16 and of
UTF-32 apart; without one, the declaration of the document names the encoding, which is UTF-8 if it
names none, and the first bytes of a declaration tell the orders apart. Text that is already decoded
is read as it is, unless its declaration claims another encoding.
-/

namespace RegisterMap.Markup

/-- The encodings of documents. -/
inductive Encoding where
  | ascii
  | codePage (p : CodePage)
  | utf8
  | utf16 (bigEndian : Bool)
  | utf32 (bigEndian : Bool)
deriving DecidableEq, Repr

/-- Decode 16-bit units: pairs of surrogates are one character, lone surrogates an error. -/
def decodeUnits : List Nat → Option (List Char)
  | [] => some []
  | high :: low :: units =>
    if 0xD800 ≤ high ∧ high < 0xDC00 then
      if 0xDC00 ≤ low ∧ low < 0xE000 then
        (decodeUnits units).map
          (Char.ofNat (0x10000 + (high - 0xD800) * 0x400 + (low - 0xDC00)) :: ·)
      else none
    else if 0xDC00 ≤ high ∧ high < 0xE000 then none
    else (decodeUnits (low :: units)).map (Char.ofNat high :: ·)
  | [unit] => if 0xD800 ≤ unit ∧ unit < 0xE000 then none else some [Char.ofNat unit]

/-- Join bytes to 16-bit units. -/
def unitsOf (bigEndian : Bool) : List UInt8 → Option (List Nat)
  | [] => some []
  | [_] => none
  | a :: b :: bytes =>
    let unit := if bigEndian then a.toNat * 256 + b.toNat else b.toNat * 256 + a.toNat
    (unitsOf bigEndian bytes).map (unit :: ·)

/-- Join bytes to the characters with 32-bit code points. -/
def charactersOf (bigEndian : Bool) : List UInt8 → Option (List Char)
  | [] => some []
  | a :: b :: c :: d :: bytes =>
    let digits := if bigEndian then [a, b, c, d] else [d, c, b, a]
    let code := digits.foldl (fun n byte => n * 256 + byte.toNat) 0
    let character := Char.ofNat code
    if character.toNat = code then (charactersOf bigEndian bytes).map (character :: ·) else none
  | _ => none

namespace Encoding

/-- The characters that bytes denote. -/
def decode? (e : Encoding) (bytes : List UInt8) : Option (List Char) :=
  match e with
  | .ascii =>
    if bytes.all (·.toNat < 0x80) then some (bytes.map fun b => Char.ofNat b.toNat) else none
  | .codePage p => bytes.mapM p.decode?
  | .utf8 => (String.fromUTF8? ⟨bytes.toArray⟩).map String.toList
  | .utf16 bigEndian => (unitsOf bigEndian bytes).bind decodeUnits
  | .utf32 bigEndian => charactersOf bigEndian bytes

/-- The names of encodings that agree with ASCII on bytes below 128. Other characters of theirs take
two bytes or more, or depend on their neighbours, and are not decoded. -/
def asciiNames : List String :=
  ["US-ASCII", "ASCII", "ISO646-US", "ISO-IR-6", "ANSI_X3.4-1968", "ANSI_X3.4-1986", "CP367",
    "IBM367", "US", "CSASCII", "EUC-JP", "EUCJP", "CP932", "SHIFT_JIS", "SHIFT-JIS", "SJIS",
    "MS_KANJI", "CSSHIFTJIS", "ISO-2022-JP", "CSISO2022JP", "EUC-CN", "EUCCN", "GB2312", "CN-GB",
    "CSGB2312", "GBK", "CP936", "MS936", "WINDOWS-936", "GB18030", "EUC-TW", "EUCTW", "BIG5",
    "BIG-5", "BIG-FIVE", "BIGFIVE", "CN-BIG5", "CSBIG5", "CP950", "BIG5-HKSCS", "BIG5HKSCS",
    "EUC-KR", "EUCKR", "CSEUCKR", "CP949", "UHC", "CP1255", "WINDOWS-1255", "MS-HEBR", "CP1258",
    "WINDOWS-1258", "CP850", "IBM850", "CP862", "IBM862", "CP866", "IBM866", "CP874", "WINDOWS-874",
    "TIS-620", "TIS620", "MACINTOSH", "MAC", "CSMACINTOSH", "KOI8-RU", "KOI8-T", "CP1131", "CP1133"]

/-- The encoding of a name, for names that can be declared in a document of single bytes. -/
def ofName? (name : String) : Option Encoding :=
  let name := name.toUpper
  if name = "UTF-8" ∨ name = "UTF8" then some .utf8
  else if asciiNames.contains name then some .ascii
  else (CodePage.ofName? name).map .codePage

end Encoding

/-- The characters before the end of a processing instruction. -/
def instructionBody : List Char → List Char
  | '?' :: '>' :: _ => []
  | c :: cs => c :: instructionBody cs
  | [] => []

/-- The encoding that the declaration of a document names. The result is `none` if the declaration
is malformed or names an encoding that cannot be used. -/
def declaredEncoding (cs : List Char) : Option Encoding :=
  match cs with
  | '<' :: '?' :: rest =>
    if Declaration.isDeclaration rest then
      (Declaration.read? (instructionBody rest)).bind fun d =>
        match d.encoding with
        | some name => Encoding.ofName? (String.ofList name)
        | none => some .utf8
    else some .utf8
  | _ => some .utf8

/-- The characters of a document, given its bytes. -/
def decodeBytes? (bytes : List UInt8) : Option (List Char) :=
  match bytes with
  | 0xEF :: 0xBB :: 0xBF :: rest => Encoding.utf8.decode? rest
  | 0xFF :: 0xFE :: 0x00 :: 0x00 :: rest => (Encoding.utf32 false).decode? rest
  | 0x00 :: 0x00 :: 0xFE :: 0xFF :: rest => (Encoding.utf32 true).decode? rest
  | 0xFF :: 0xFE :: rest => (Encoding.utf16 false).decode? rest
  | 0xFE :: 0xFF :: rest => (Encoding.utf16 true).decode? rest
  | 0x3C :: 0x00 :: 0x00 :: 0x00 :: _ => (Encoding.utf32 false).decode? bytes
  | 0x00 :: 0x00 :: 0x00 :: 0x3C :: _ => (Encoding.utf32 true).decode? bytes
  | 0x3C :: 0x00 :: 0x3F :: 0x00 :: _ => (Encoding.utf16 false).decode? bytes
  | 0x00 :: 0x3C :: 0x00 :: 0x3F :: _ => (Encoding.utf16 true).decode? bytes
  | _ =>
    let start := (bytes.take 512).map fun b => Char.ofNat b.toNat
    (declaredEncoding start).bind (·.decode? bytes)

/-- The root element of a document given as bytes. -/
def readBytes (bytes : List UInt8) : Except Error Element :=
  match (decodeBytes? bytes).bind readChars with
  | some root => .ok root
  | none => .error .document

/-- The root element of a document given as text. -/
def readText (s : String) : Except Error Element :=
  let cs :=
    match s.toList with
    | '\uFEFF' :: cs => some cs
    | cs =>
      if declaredEncoding cs = some Encoding.utf8 then some cs
      else decodeBytes? s.toUTF8.toList
  match cs.bind readChars with
  | some root => .ok root
  | none => .error .document

end RegisterMap.Markup
