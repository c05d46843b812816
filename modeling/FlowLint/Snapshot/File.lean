import FlowLint.Json.Reader
import FlowLint.Snapshot.Codec

/-!
# Snapshot files
-/

namespace FlowLint

/-- Why a snapshot file cannot be used. -/
inductive SnapshotProblem where
  | missingFile
  | unreadableFile
deriving DecidableEq, Repr, Inhabited

/-- The problem in words. -/
def SnapshotProblem.message : SnapshotProblem → String
  | .missingFile => "IO error: the file cannot be read"
  | .unreadableFile => "Snapshot parse error: this is not a snapshot"

/-- The snapshot of a file, given its contents if it is there. -/
def Snapshot.ofFile (contents : Option String) : Except SnapshotProblem Snapshot :=
  match contents with
  | none => .error .missingFile
  | some text =>
    match (Json.read? text).bind Snapshot.ofJson? with
    | some s => .ok s
    | none => .error .unreadableFile

end FlowLint
