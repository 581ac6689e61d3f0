import PowConsensus.Chain.Index
import PowConsensus.Json.Document
import PowConsensus.Network.Basic

/-! # Digests, networks and chain entries as JSON

A digest is a string, a network its name, and a chain entry an object of its four fields. A reader
takes an entry also as an array of the fields in order, and without a hash in the object form; other
members are skipped.
-/
namespace PowConsensus

open Json (Document)

def Digest.document (d : Digest) : Document := .ofString d.text

def Digest.ofDocument? (doc : Document) : Option Digest := do
  (Digest.parse (← doc.readText?)).toOption

def readWord? (doc : Document) : Option UInt32 := do
  let n ← doc.readNatural?
  if n < UInt32.size then some (UInt32.ofNat n) else none

def Network.document (n : Network) : Document := .ofString n.name

/-- The name, or an object with the name as its one member and null under it. -/
def Network.ofDocument? : Document → Option Network
  | .object [(key, .null)] => do Network.ofName? (String.ofList (← Document.characters? key))
  | doc => do Network.ofName? (← doc.readText?)

namespace ChainEntry

def document (e : ChainEntry) : Document :=
  .object
    [(Document.partsOf "hash", e.hash.document),
     (Document.partsOf "height", .natural e.height.toNat),
     (Document.partsOf "time", .natural e.time.toNat),
     (Document.partsOf "bits", .natural e.bits.bits.toNat)]

def ofFields? (hash height time bits : Document) : Option ChainEntry := do
  let hash ← Digest.ofDocument? hash
  let height ← readWord? height
  let time ← readWord? time
  let bits ← readWord? bits
  some ⟨hash, height, time, ⟨bits⟩⟩

def ofDocument? : Document → Option ChainEntry
  | .array [hash, height, time, bits] => ofFields? hash height time bits
  | .object members => do
    let members ← Document.named? members
    let hash ← Document.unique? "hash" members
    let height ← Document.unique? "height" members
    let time ← Document.unique? "time" members
    let bits ← Document.unique? "bits" members
    ofFields? (hash.getD Digest.zero.document) (← height) (← time) (← bits)
  | _ => none

def listDocument (entries : List ChainEntry) : Document := .array (entries.map document)

/-- The entries of a headers file. -/
def listOfDocument? : Document → Option (List ChainEntry)
  | .array items => items.mapM ofDocument?
  | _ => none

end ChainEntry
end PowConsensus
