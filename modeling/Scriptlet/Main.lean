import Scriptlet.Command

/-!
# The program `lox`

Reads the file and the setting that the answer depends on, and writes the answer.
-/

namespace Scriptlet

/-- The reason that the system gives for an error, and its number.  The two most frequent ones
have the same words and numbers wherever they arise. -/
def ReadFailure.ofError : IO.Error → ReadFailure
  | .noFileOrDirectory .. => .system "No such file or directory" 2
  | .permissionDenied .. => .system "Permission denied" 13
  | .alreadyExists _ code reason | .interrupted _ code reason | .invalidArgument _ code reason
  | .resourceExhausted _ code reason | .inappropriateType _ code reason
  | .noSuchThing _ code reason => .system reason code.toNat
  | .otherError code reason | .resourceBusy code reason | .resourceVanished code reason
  | .unsupportedOperation code reason | .hardwareFault code reason
  | .unsatisfiedConstraints code reason | .illegalOperation code reason
  | .protocolError code reason | .timeExpired code reason => .system reason code.toNat
  | .unexpectedEof => .system "Unexpected end of file" 0
  | .userError reason => .system reason 0

/-- The bytes of a file. -/
def readBytes (path : String) : IO (Except ReadFailure ByteArray) := do
  try
    return .ok (← IO.FS.readBinFile path)
  catch e => return .error (.ofError e)

end Scriptlet

/-- Answers the arguments of the command. -/
def main (args : List String) : IO UInt32 := do
  let file ← match args with
    | _ :: path :: _ => Scriptlet.readBytes path
    | _ => pure (.ok .empty)
  let setting ← IO.getEnv "LOXWALK_MAX_DEPTH"
  let response := Scriptlet.answer ("lox" :: args) file setting
  let out ← IO.getStdout
  out.write response.output
  out.flush
  IO.eprint response.errors
  return UInt32.ofNat response.exit.code
