/-! # Networks

The three networks and their names.
-/
namespace PowConsensus

inductive Network where
  | main
  | test
  | regtest
  deriving DecidableEq, Repr

namespace Network

def all : List Network := [.main, .test, .regtest]

def name : Network → String
  | .main => "main"
  | .test => "test"
  | .regtest => "regtest"

def ofName? (name : String) : Option Network := all.find? (·.name == name)

end Network
end PowConsensus
