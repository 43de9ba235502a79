import Eider.Lib.BTreeMap
import Mathlib.Order.Nat

/-!
What the chat services rely on of their sequence caches (the `seqcache` package, which they
call). A sequence is active from its admission until it is finished, and its bytes are
charged that long; ids are not used twice. Finishing a live sequence releases it, whatever
the call answers. A service that only forgets an id leaves the sequence active.
-/
namespace Eider.Source
open Lib

/-- The active sequences, with the bytes that each is charged. -/
structure ActiveSequences where
  active : BTreeMap Nat Nat
  nextId : Nat

namespace ActiveSequences

variable (cache : ActiveSequences)

def enter (bytes : Nat) : ActiveSequences where
  active := cache.active.insert cache.nextId bytes
  nextId := cache.nextId + 1

def finish (id : Nat) : ActiveSequences :=
  { cache with active := cache.active.erase id }

/-- The bytes that are not free for an admission. -/
def chargedBytes : Nat := cache.active.values.sum

/-- A cache without active sequences has its full capacity. -/
theorem chargedBytes_eq_zero {cache : ActiveSequences} (h : cache.active.keys = []) :
    cache.chargedBytes = 0 := by
  unfold BTreeMap.keys at h
  unfold chargedBytes BTreeMap.values
  rw [List.map_eq_nil_iff.mp h]
  rfl

end ActiveSequences

end Eider.Source
