import LinearGrammar.Text.Invisible

/-!
# Quotations

A message that names a text from a file quotes it so that it can be read off without a doubt: between
double quotes, with a backslash before what would end the quotation, and with characters that cannot
be seen written as their code points.
-/

namespace LinearGrammar.Text

def quoteChar (c : Char) : List Char :=
  if c = '\x00' then ['\\', '0']
  else if c = '\t' then ['\\', 't']
  else if c = '\r' then ['\\', 'r']
  else if c = '\n' then ['\\', 'n']
  else if c = '"' then ['\\', '"']
  else if c = '\\' then ['\\', '\\']
  else if isInvisible c then '\\' :: 'u' :: '{' :: (Nat.toDigits 16 c.toNat ++ ['}'])
  else [c]

/-- The text in double quotes. -/
def quotation (text : String) : String :=
  String.ofList ('"' :: (text.toList.flatMap quoteChar ++ ['"']))

end LinearGrammar.Text
