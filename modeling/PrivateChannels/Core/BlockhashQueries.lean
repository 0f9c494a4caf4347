import PrivateChannels.Core.PipelineReplay

/-!
# `isBlockhashValid`

The handler reads the ingested counter, scans the window and reads the announced counter
while the pipeline runs on.
-/

namespace PrivateChannels.Core

/-- Both counters only grow. -/
def BlockhashProgress.counts (progress : BlockhashProgress) : ℕ × ℕ :=
  (progress.ingested, progress.announced)

variable {config : PipelineConfig} {s t u : Node} {p q r : Process} {label : PipelineLabel}
  {before labels after : List PipelineLabel}

end PrivateChannels.Core
