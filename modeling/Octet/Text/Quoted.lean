import Octet.Text.Printable

/-!
# Quoted text

Diagnostics and displayed trees show a text between quotes, so that its blanks
and its invisible characters can be seen.  The quote is the apostrophe, unless
the text holds an apostrophe and no double quote.  Inside the quotes

* the quote itself and the backslash are written behind a backslash;
* tab, line feed and carriage return are written `\t`, `\n` and `\r`;
* any other character that is not printable is written by its code point, with
  as many hexadecimal digits as its size asks for: two, four or eight;
* every other character stands for itself.
-/

namespace Octet
namespace Text

/-- The apostrophe. -/
def apostrophe : Char := Char.ofNat 39

/-- The quote put around a text: the apostrophe, unless the text holds one and
holds no double quote. -/
def quoteFor (text : List Char) : Char :=
  if text.contains apostrophe && !text.contains '"' then '"' else apostrophe

/-- A number in lower-case hexadecimal, filled up with zeros to `width` digits. -/
def hex (width n : Nat) : List Char :=
  let digits := Nat.toDigits 16 n
  List.replicate (width - digits.length) '0' ++ digits

/-- The code point of a character behind a backslash. -/
def escapeCode (c : Char) : List Char :=
  let n := c.toNat
  if n < 0x100 then '\\' :: 'x' :: hex 2 n
  else if n < 0x10000 then '\\' :: 'u' :: hex 4 n
  else '\\' :: 'U' :: hex 8 n

/-- One character of a text between the given quotes. -/
def escape (quote c : Char) : List Char :=
  if c = quote || c = '\\' then ['\\', c]
  else if c = '\t' then ['\\', 't']
  else if c = '\n' then ['\\', 'n']
  else if c = '\r' then ['\\', 'r']
  else if isPrintable c then [c]
  else escapeCode c

/-- A text between quotes. -/
def quoted (text : String) : String :=
  let chars := text.toList
  let quote := quoteFor chars
  String.ofList (quote :: chars.flatMap (escape quote) ++ [quote])

end Text
end Octet
