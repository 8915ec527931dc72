import MdxReader.Command

/-!
# The program

Reads the arguments and, where it is needed, the standard input; prints the answer.
-/

namespace MdxReader

/-- All bytes of a stream. -/
partial def allBytes (stream : IO.FS.Stream) (read : ByteArray) : IO ByteArray := do
  let chunk ← stream.read 65536
  if chunk.isEmpty then return read else allBytes stream (read ++ chunk)

end MdxReader

/-- `mdx`: arguments that are wrong have exit code 2. -/
def main (args : List String) : IO UInt32 := do
  match MdxReader.Invocation.ofArgs? args with
  | none =>
    IO.eprintln "usage: mdx check [QUERY] | docs | doc CATEGORY"
    return 2
  | some invocation =>
    let input ←
      if invocation.needsInput then MdxReader.allBytes (← IO.getStdin) .empty else pure .empty
    let output := invocation.run input
    IO.print output.out
    IO.eprint output.err
    return output.exit.toUInt32
