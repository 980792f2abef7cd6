import XPathSyntax.CommandLine
import XPathSyntax.Proofs.Text.Bytes

/-! The lines of an input. Its newlines divide it into pieces: all but the last are lines, each
without the carriage return at its end, and the last is one if there is anything in it. So texts
that hold no newline are the lines of the input in which each has an end of line behind it. -/

namespace XPathSyntax.CommandLine

variable {line : List UInt8} {text : String}

def bytesOf (text : String) : List UInt8 :=
  text.toUTF8.data.toList

end XPathSyntax.CommandLine
