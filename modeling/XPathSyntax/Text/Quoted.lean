import XPathSyntax.Text.Unprintable

/-! Quoted text. Every character is escaped on its own: the quote and the backslash always, the
line ends, the tab and the null in two characters, any other character without a glyph by its code
point in hexadecimal; all others stand for themselves. Text is written in front of what follows
it, so writing costs time linear in what is written. -/

namespace XPathSyntax.Text

def codePointEscape (c : Char) : List Char :=
  '\\' :: 'u' :: '\x7b' :: (Nat.toDigits 16 c.toNat ++ ['\x7d'])

def escape (c : Char) : List Char :=
  if c = '"' then ['\\', '"']
  else if c = '\\' then ['\\', '\\']
  else if c = '\n' then ['\\', 'n']
  else if c = '\r' then ['\\', 'r']
  else if c = '\t' then ['\\', 't']
  else if c = '\x00' then ['\\', '0']
  else if isUnprintable c then codePointEscape c
  else [c]

def quoteOnto (s rest : List Char) : List Char :=
  '"' :: (s.flatMap escape ++ '"' :: rest)

def quote (s : String) : String :=
  String.ofList (quoteOnto s.toList [])

theorem quoteOnto_append (s rest more : List Char) :
    quoteOnto s rest ++ more = quoteOnto s (rest ++ more) := by
  simp [quoteOnto]

end XPathSyntax.Text
