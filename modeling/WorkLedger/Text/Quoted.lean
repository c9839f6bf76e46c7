import WorkLedger.Text.CharClass

/-!
# Quoted text for messages

Messages show names and characters between quotes with escapes, so that blanks, control and
combining characters stay visible. A character is written as itself when it is printable;
the usual backslash escapes stand for NUL, tab, line feed, carriage return, the backslash and
the quote in use; a grapheme extender or an unprintable character (see `Text.CharClass`) is
written `\u{hex}` with lowercase digits.
-/

namespace WorkLedger.Text

/-- Lowercase hexadecimal digits of `n` without leading zeros. -/
def hexDigits (n : Nat) : String := String.ofList (Nat.toDigits 16 n)

/-- The escape `\u{hex}` of a character. -/
def unicodeEscape (c : Char) : String := "\\u\x7b" ++ hexDigits c.toNat ++ "\x7d"

/-- A character as it stands between the quotes `quote`: named escapes first, then combining
marks and unprintable characters as `\u{hex}`, anything else as itself. -/
def escapeChar (quote : Char) (c : Char) : String :=
  if c = '\x00' then "\\0"
  else if c = '\t' then "\\t"
  else if c = '\r' then "\\r"
  else if c = '\n' then "\\n"
  else if c = '\\' then "\\\\"
  else if c = quote then "\\" ++ c.toString
  else if isGraphemeExtend c || !isPrintable c then unicodeEscape c
  else c.toString

/-- A text between double quotes, escaped. -/
def quoteString (s : String) : String :=
  "\"" ++ String.join (s.toList.map (escapeChar '"')) ++ "\""

/-- A character between single quotes, escaped. -/
def quoteChar (c : Char) : String := "'" ++ escapeChar '\'' c ++ "'"

end WorkLedger.Text
