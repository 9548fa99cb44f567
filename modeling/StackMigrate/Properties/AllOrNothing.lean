import StackMigrate.Graph.Replay
import StackMigrate.Nodes.Migration
import StackMigrate.Sandbox.Batches

/-!
# What a failed batch leaves behind

All paths of a batch are checked before the tree is touched. But the check is about the
workspace root only: a directory, a path below a file and two paths one of which lies below the
other get past it, and the writing loop stops in the middle. The stage checks its new batch only
after the stale files are gone.
-/

namespace StackMigrate

open KeyedList PathTree FileSystem

variable {fs fs' : FileSystem} {workspaceRoot : String} {diffs done rest : List FileDiff}
  {diff : FileDiff} {s : GraphState}

end StackMigrate
