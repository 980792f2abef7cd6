import XPathSyntax.CommandLine

/-! The program: reads its input if it needs it, and prints what the command line reports. It
measures no times and keeps no log. -/

namespace XPathSyntax

partial def readAll (stream : IO.FS.Stream) (bytes : ByteArray) : IO ByteArray := do
  let more ← stream.read 65536
  if more.isEmpty then return bytes else readAll stream (bytes ++ more)

end XPathSyntax

open XPathSyntax in
def main (words : List String) : IO UInt32 := do
  let input ←
    if CommandLine.wantsInput words then readAll (← IO.getStdin) .empty else pure .empty
  let report := CommandLine.run words input.toList
  for (channel, text) in report.printed do
    match channel with
    | .output => IO.print text
    | .error => IO.eprint text
  return report.exitCode.toUInt32
