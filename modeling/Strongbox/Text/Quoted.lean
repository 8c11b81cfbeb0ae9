import Strongbox.Text.Shown

/-!
# Quoted text

How a name is shown between double quotes. The quote and the backslash
are escaped by a backslash, the common control characters by a letter,
and every other character that does not show as itself by its code point
in hexadecimal between braces.

Names come into the texts of the random sources, where a source that an
application has registered is shown under whatever name it was given. A
name that holds a quote, a line break or an invisible character must not
be able to pass for another part of the text; between quotes, and with
what does not show escaped, it is read back in one way only.

Which characters show as themselves is a table of its own, in
`Strongbox.Text.Shown`.

The code point is written in lower case and without leading zeros, and
the zero character has an escape of two characters to itself. So the
order of the cases in `escape` is part of what it says: a quote would
show, and so would the backslash, but neither may stand for itself.

`quoted` takes a text apart into its characters and never looks at two
of them together.
-/

namespace Strongbox.Text

/-- A character as it stands between quotes. The cases are asked in this
order, and a character that shows comes last but one: the quote and the
backslash show, and are escaped all the same. -/
def escape (c : Char) : String :=
  if c = '"' then "\\\""
  else if c = '\\' then "\\\\"
  else if c = '\n' then "\\n"
  else if c = '\r' then "\\r"
  else if c = '\t' then "\\t"
  else if c.toNat = 0 then "\\0"
  else if isShown c then String.singleton c
  else "\\u\x7b" ++ String.ofList (Nat.toDigits 16 c.toNat) ++ "\x7d"

/-- **A text between quotes.** The characters are escaped one by one and
put together again. -/
def quoted (text : String) : String :=
  "\"" ++ String.join (text.toList.map escape) ++ "\""

/-- A list of texts, quoted, between brackets. Of no texts it is a pair
of brackets. -/
def quotedList (texts : List String) : String :=
  "[" ++ ", ".intercalate (texts.map quoted) ++ "]"

end Strongbox.Text
