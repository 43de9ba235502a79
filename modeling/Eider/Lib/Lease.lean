import Eider.Lib.Custody

/-!
# Leases

Entries of a map are lent out together and come back under their keys. What stands at the other
keys does not change, and neither does the set of keys.
-/
namespace Eider.Lib.Lease

variable {κ β γ : Type} [LinearOrder κ]

/-- The entries go back under their keys. -/
def putBack (pool : BTreeMap κ β) (keys : List κ) (entries : List β) : BTreeMap κ β :=
  (keys.zip entries).foldl (fun pool entry => pool.insert entry.1 entry.2) pool

variable {pool : BTreeMap κ β} {keys : List κ} {entries : List β} {k : κ} {v : β}

end Eider.Lib.Lease
