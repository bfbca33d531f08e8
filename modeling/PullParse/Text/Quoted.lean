import PullParse.Text.Printable

/-!
# Quoted text

Text is shown between single quotes, or between double quotes when it holds a
single quote and no double one. Inside, the backslash and the quote in use are
escaped by a backslash, tab and line breaks have letters of their own, and every
other character that is not printable is written by its code point in the
fewest of two, four or eight lower-case hexadecimal digits. Byte strings are
quoted the same way, each byte outside the printable ASCII range in two digits;
in mutable ones the single quote is escaped even between double quotes.
-/

namespace PullParse.Text

/-- One lower-case hexadecimal digit. -/
def hexDigit (n : Nat) : Char :=
  if n < 10 then Char.ofNat (0x30 + n) else Char.ofNat (0x57 + n)

/-- The last `width` hexadecimal digits of `n`, most significant first. -/
def hex : Nat → Nat → List Char
  | 0, _ => []
  | width + 1, n => hex width (n / 16) ++ [hexDigit (n % 16)]

/-- The quote chosen for a text. -/
def quoteFor (text : List Char) : Char :=
  if text.contains '\'' && !text.contains '"' then '"' else '\''

/-- The escape that a character has whether it is printable or not; `mark` is the quote to be
escaped. -/
def letterEscape? (mark c : Char) : Option (List Char) :=
  if c == '\\' || c == mark then some ['\\', c]
  else if c == '\t' then some ['\\', 't']
  else if c == '\n' then some ['\\', 'n']
  else if c == '\r' then some ['\\', 'r']
  else none

/-- One character of quoted text. -/
def escapeChar (mark c : Char) : List Char :=
  match letterEscape? mark c with
  | some escaped => escaped
  | none =>
    let code := c.toNat
    if isPrintable c then [c]
    else if code < 0x100 then '\\' :: 'x' :: hex 2 code
    else if code < 0x10000 then '\\' :: 'u' :: hex 4 code
    else '\\' :: 'U' :: hex 8 code

/-- One byte of a quoted byte string. -/
def escapeByte (mark : Char) (b : UInt8) : List Char :=
  let c := Char.ofNat b.toNat
  match letterEscape? mark c with
  | some escaped => escaped
  | none =>
    if 0x20 ≤ b.toNat && b.toNat < 0x7F then [c] else '\\' :: 'x' :: hex 2 b.toNat

/-- A text in quotes. -/
def quoted (text : String) : String :=
  let cs := text.toList
  let quote := quoteFor cs
  String.ofList (quote :: (cs.flatMap (escapeChar quote) ++ [quote]))

/-- The quote chosen for a byte string. -/
def quoteForBytes (bs : List UInt8) : Char := quoteFor (bs.map fun b => Char.ofNat b.toNat)

/-- A byte string in quotes, marked by a leading `b`. -/
def quotedBytes (bs : List UInt8) : String :=
  let quote := quoteForBytes bs
  String.ofList ('b' :: quote :: (bs.flatMap (escapeByte quote) ++ [quote]))

/-- A mutable byte string in quotes. -/
def quotedByteArray (bs : List UInt8) : String :=
  let quote := quoteForBytes bs
  String.ofList ('b' :: quote :: (bs.flatMap (escapeByte '\'') ++ [quote]))

end PullParse.Text
