import Mathlib.Algebra.Ring.Nat
import Mathlib.Data.List.Nodup

/-!
# Constants, enumerations and clusters

The constants and enumerations of `dsm_types.h` that the modelled code uses, and the fixed
membership that the synchronisation protocols run on. Node ids, lock ids and addresses are the
unsigned integers of the source as naturals; where a sum can wrap, the definition that adds says so.

Here and in the other modules a definition that carries the words of a constant, a field or a
function of the source embeds it: `maxNodes` is `DSM_MAX_NODES`, `regionCreate` is
`dsm_region_create`.
-/

namespace Dsm

def maxNodes : Nat := 64

def maxLocks : Nat := 256

def pageSize : Nat := 4096

abbrev NodeId := Nat
abbrev LockId := Nat

/-- The node id of the master: `dsm_init_with_params` gives it to the node that finds no master. -/
def masterId : NodeId := 1

/-- `local_ip` and `local_port`, by which other nodes reach a node. -/
abbrev Address := List UInt8 × Nat

inductive Role where
  | unknown
  | master
  | worker
deriving DecidableEq, Repr

/-- A master and the workers that it has in its node table, all of them connected. -/
structure Cluster where
  workers : List NodeId
  nodup : workers.Nodup
  masterId_lt : ∀ w ∈ workers, masterId < w

def Cluster.nodes (cl : Cluster) : List NodeId := masterId :: cl.workers

theorem Cluster.ne_masterId {cl : Cluster} {w : NodeId} (hw : w ∈ cl.workers) : w ≠ masterId :=
  (Nat.ne_of_lt (cl.masterId_lt w hw)).symm

def oneWorker : Cluster := { workers := [2], nodup := by decide, masterId_lt := by decide }

def twoWorkers : Cluster := { workers := [2, 3], nodup := by decide, masterId_lt := by decide }

inductive PageState where
  | invalid
  | shared
  | modified
  | pending
deriving DecidableEq, Repr

/-- What `mmap` and `mprotect` allow on a page: `PROT_NONE`, `PROT_READ` or
`PROT_READ | PROT_WRITE`. -/
inductive Prot where
  | none
  | read
  | readWrite
deriving DecidableEq, Repr

end Dsm
