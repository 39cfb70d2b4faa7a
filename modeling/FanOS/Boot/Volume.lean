import FanOS.Boot.Basic
import FanOS.Fat12.Basic

/-!
# The floppy as a FAT12 volume

What a floppy with the loader's parameter block holds: one reserved sector, two tables of nine
sectors, 224 root entries of 32 bytes in sectors 19 to 32, and the data area from sector 33 on,
whose first cluster is number 2.  Nothing here refers to how the loader reads any of it.
-/

namespace FanOS.Boot.Floppy

/-- The first table. -/
def fat (f : Floppy) : ℕ → BitVec 8 := fun o => f (512 + o)

/-- Byte `j` of entry `i` of the root directory. -/
def dirEntry (f : Floppy) (i j : ℕ) : BitVec 8 := f (19 * 512 + (32 * i + j))

/-- Entry `i` of the root directory has the name. -/
def Named (f : Floppy) (name : List (BitVec 8)) (i : ℕ) : Prop :=
  ∀ j b, name[j]? = some b → f.dirEntry i j = b

/-- The first cluster of entry `i`, the half word at its byte 26. -/
def firstCluster (f : Floppy) (i : ℕ) : ℕ :=
  (f.dirEntry i 26).toNat + 256 * (f.dirEntry i 27).toNat

/-- The bytes of cluster `c`. -/
def cluster (f : Floppy) (c : ℕ) : ℕ → BitVec 8 := f.sector (33 + c - 2)

/-- The bytes of the clusters `cs`, one after the other. -/
def bytes (f : Floppy) (cs : List ℕ) : ℕ → BitVec 8 := Fat12.content f.cluster 512 cs

/-- The root directory has an entry of the name, and the first such entry is that of a file with
the clusters `cs`. -/
structure HoldsFile (f : Floppy) (name : List (BitVec 8)) (cs : List ℕ) : Prop where
  entry : ∃ i < 224, f.Named name i ∧ (∀ j < i, ¬ f.Named name j) ∧
    cs.head? = some (f.firstCluster i)
  range : ∀ c ∈ cs, 2 ≤ c ∧ c ≤ 2848
  chain : Fat12.Chain f.fat cs

end FanOS.Boot.Floppy
