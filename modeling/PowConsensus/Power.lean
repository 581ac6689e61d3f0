/-! # Powers of numbers

Powers are those of the core library, which evaluate, in every module: also in one that imports
other instances for the same notation.
-/
namespace PowConsensus

attribute [instance (high), default_instance (high + 1)] instPowNat

end PowConsensus
