import Mathlib.Data.List.GetD
import Mathlib.Data.List.Perm.Subperm
import Mathlib.Tactic.SplitIfs

/-!
# FAT12 chains

A file allocation table is an array of 12-bit entries, two to three bytes.  `entry` decodes one;
`packed` is the table of a sequence of
entries, and decoding it gives them back (`entry_packed`);
`Chain` is a file's chain of clusters, closed by an end mark; `content` is what the chain holds.

A reader that keeps its copy of the table in memory which it also loads the file into does not
follow the chain of the table on disk but that of a table which changes as it goes on:
`Follows table k cs` says that the entries of `table (k + 1)`, `table (k + 2)`, … lead through
the clusters `cs` to an end mark.  `Follows.congr` and `Chain.follows` compare the two.
-/

namespace FanOS.Fat12

variable {fat fat' : ℕ → BitVec 8} {c k : ℕ}

/-! ### Entries -/

/-- The 12-bit entry of cluster `c`: the low bits of the half word at `3 c / 2` for an even
cluster and its high bits for an odd one. -/
def entry (fat : ℕ → BitVec 8) (c : ℕ) : ℕ :=
  let w := (fat (c + c / 2)).toNat + 256 * (fat (c + c / 2 + 1)).toNat
  if c % 2 = 0 then w % 4096 else w / 16

/-- An entry is decoded from two bytes. -/
theorem entry_congr (h0 : fat (c + c / 2) = fat' (c + c / 2))
    (h1 : fat (c + c / 2 + 1) = fat' (c + c / 2 + 1)) : entry fat c = entry fat' c := by
  rw [entry, entry, h0, h1]

/-- An entry has 12 bits. -/
theorem entry_lt (fat : ℕ → BitVec 8) (c : ℕ) : entry fat c < 4096 := by
  have h0 := (fat (c + c / 2)).isLt
  have h1 := (fat (c + c / 2 + 1)).isLt
  rw [entry]
  split_ifs <;> omega

/-- The bytes of a table with the given entries: two of them in three bytes, the low bits first. -/
def packed (values : ℕ → BitVec 12) (o : ℕ) : BitVec 8 :=
  let even := values (2 * (o / 3))
  let odd := values (2 * (o / 3) + 1)
  if o % 3 = 0 then even.setWidth 8
  else if o % 3 = 1 then odd.setWidth 4 ++ even.extractLsb' 8 4
  else odd.extractLsb' 4 8

section Packed

variable (values : ℕ → BitVec 12) (k : ℕ)

theorem toNat_packed_first : (packed values (3 * k)).toNat = (values (2 * k)).toNat % 256 := by
  rw [packed, if_pos (by omega), Nat.mul_div_cancel_left k (by omega), BitVec.toNat_setWidth]

theorem toNat_packed_second :
    (packed values (3 * k + 1)).toNat =
      (values (2 * k)).toNat / 256 + 16 * ((values (2 * k + 1)).toNat % 16) := by
  have hlt := (values (2 * k)).isLt
  rw [packed, if_neg (by omega), if_pos (by omega), show (3 * k + 1) / 3 = k by omega,
    BitVec.toNat_append, BitVec.extractLsb'_toNat, BitVec.toNat_setWidth,
    ← Nat.shiftLeft_add_eq_or_of_lt (Nat.mod_lt _ (by decide)), Nat.shiftLeft_eq,
    Nat.shiftRight_eq_div_pow]
  omega

theorem toNat_packed_third :
    (packed values (3 * k + 2)).toNat = (values (2 * k + 1)).toNat / 16 := by
  have hlt := (values (2 * k + 1)).isLt
  rw [packed, if_neg (by omega), if_neg (by omega), show (3 * k + 2) / 3 = k by omega,
    BitVec.extractLsb'_toNat, Nat.shiftRight_eq_div_pow]
  omega

end Packed

/-- **Decoding** an entry of the packed table gives the value back. -/
theorem entry_packed (values : ℕ → BitVec 12) (c : ℕ) :
    entry (packed values) c = (values c).toNat := by
  have hlt := (values c).isLt
  rw [entry]
  -- an even entry starts in the first of its three bytes, an odd one in the second
  obtain ⟨k, rfl | rfl⟩ : ∃ k, c = 2 * k ∨ c = 2 * k + 1 := ⟨c / 2, by omega⟩
  · rw [if_pos (by omega), show 2 * k + 2 * k / 2 = 3 * k by omega, toNat_packed_first,
      toNat_packed_second]
    omega
  · rw [if_neg (by omega), show 2 * k + 1 + (2 * k + 1) / 2 = 3 * k + 1 by omega,
      toNat_packed_second, toNat_packed_third]
    omega

/-! ### Chains -/

/-- The clusters of a file: every entry names the next cluster, and the last one is an end mark. -/
def Chain (fat : ℕ → BitVec 8) : List ℕ → Prop
  | [] => False
  | [c] => 0xFF8 ≤ entry fat c
  | c :: d :: cs => entry fat c = d ∧ Chain fat (d :: cs)

instance decidableChain (fat : ℕ → BitVec 8) : ∀ cs, Decidable (Chain fat cs)
  | [] => inferInstanceAs (Decidable False)
  | [c] => inferInstanceAs (Decidable (0xFF8 ≤ entry fat c))
  | c :: d :: cs =>
    have := decidableChain fat (d :: cs)
    inferInstanceAs (Decidable (entry fat c = d ∧ Chain fat (d :: cs)))

/-- Tables with the same entries for the clusters of a list have the same chain there. -/
theorem Chain.congr {cs : List ℕ} (h : Chain fat cs) (he : ∀ x ∈ cs, entry fat x = entry fat' x) :
    Chain fat' cs := by
  induction cs with
  | nil => exact h
  | cons c cs ih =>
    have hc := he c List.mem_cons_self
    cases cs with
    | nil => rwa [Chain, ← hc]
    | cons d cs => exact ⟨hc.symm.trans h.1, ih h.2 fun x hx => he x (List.mem_cons_of_mem _ hx)⟩

/-- The rest of a chain is a chain. -/
theorem Chain.of_append (pre : List ℕ) {cs : List ℕ} (h : Chain fat (pre ++ c :: cs)) : Chain fat (c :: cs) := by
  induction pre with
  | nil => exact h
  | cons d pre ih =>
    cases pre with
    | nil => exact h.2
    | cons e pre => exact ih h.2

/-- The first cluster decides the rest of the chain, if no cluster of it is an end mark. -/
theorem Chain.unique {cs ds : List ℕ} (h : Chain fat (c :: cs)) (h' : Chain fat (c :: ds))
    (hcs : ∀ x ∈ cs, x < 0xFF8) (hds : ∀ x ∈ ds, x < 0xFF8) : cs = ds := by
  -- where one chain ends, the entry is an end mark and not a cluster of the other
  induction cs generalizing c ds with
  | nil =>
    have hend : 0xFF8 ≤ entry fat c := h
    cases ds with
    | nil => rfl
    | cons d ds =>
      have := hds d List.mem_cons_self
      rw [h'.1] at hend
      omega
  | cons x cs ih =>
    cases ds with
    | nil =>
      have hend : 0xFF8 ≤ entry fat c := h'
      have := hcs x List.mem_cons_self
      rw [h.1] at hend
      omega
    | cons d ds =>
      obtain rfl : x = d := h.1.symm.trans h'.1
      rw [ih h.2 h'.2 (fun y hy => hcs y (List.mem_cons_of_mem _ hy))
        (fun y hy => hds y (List.mem_cons_of_mem _ hy))]

/-- A chain does not come back to a cluster. -/
theorem Chain.nodup {cs : List ℕ} (h : Chain fat cs) (hcs : ∀ x ∈ cs, x < 0xFF8) : cs.Nodup := by
  induction cs with
  | nil => exact List.nodup_nil
  | cons c cs ih =>
    have htail : ∀ x ∈ cs, x < 0xFF8 := fun x hx => hcs x (List.mem_cons_of_mem _ hx)
    refine List.nodup_cons.mpr ⟨fun hmem => ?_, ?_⟩
    · obtain ⟨pre, post, rfl⟩ := List.append_of_mem hmem
      -- the chain from the second occurrence on would be as long as that from the first on
      have hpost : ∀ x ∈ post, x < 0xFF8 := fun x hx => htail x (by simp [hx])
      have heq := h.unique (Chain.of_append (c :: pre) h) htail hpost
      have := congrArg List.length heq
      simp at this
      omega
    · cases cs with
      | nil => exact List.nodup_nil
      | cons d cs => exact ih h.2 htail

/-- So its length is bounded. -/
theorem Chain.length_le {cs : List ℕ} (h : Chain fat cs) {n : ℕ} (hn : n ≤ 0xFF8)
    (hcs : ∀ x ∈ cs, x < n) : cs.length ≤ n := by
  have hnodup := h.nodup fun x hx => Nat.lt_of_lt_of_le (hcs x hx) hn
  have hsub : cs ⊆ List.range n := fun x hx => List.mem_range.mpr (hcs x hx)
  simpa using (List.subperm_of_subset hnodup hsub).length_le

/-- The bytes of the clusters `cs`, one after the other. -/
def content (cluster : ℕ → ℕ → BitVec 8) (size : ℕ) (cs : List ℕ) (i : ℕ) : BitVec 8 :=
  cluster (cs.getD (i / size) 0) (i % size)

/-- The content of a chain is that of its first cluster and then that of the rest. -/
theorem content_cons (cluster : ℕ → ℕ → BitVec 8) {size : ℕ} (hsize : 0 < size) (cs : List ℕ) (i : ℕ) :
    content cluster size (c :: cs) i =
      if i < size then cluster c i else content cluster size cs (i - size) := by
  rw [content, content]
  split_ifs with h
  · rw [Nat.div_eq_of_lt h, Nat.mod_eq_of_lt h]
    rfl
  · have hle : size ≤ i := Nat.le_of_not_lt h
    rw [Nat.div_eq_sub_div hsize hle, Nat.mod_eq_sub_mod hle, List.getD_cons_succ]

/-- The first bytes of a longer file are those of its first clusters. -/
theorem content_append_of_lt {cluster : ℕ → ℕ → BitVec 8} {size i : ℕ} (cs ds : List ℕ)
    (h : i < cs.length * size) :
    content cluster size (cs ++ ds) i = content cluster size cs i := by
  have hi : i / size < cs.length := Nat.div_lt_of_lt_mul (by rwa [Nat.mul_comm])
  rw [content, content, List.getD_append _ _ _ _ hi]

/-- The bytes of the cluster that a file is extended by. -/
theorem content_append_cons {cluster : ℕ → ℕ → BitVec 8} {size i : ℕ} (cs ds : List ℕ)
    (h : i < size) :
    content cluster size (cs ++ c :: ds) (cs.length * size + i) = cluster c i := by
  have hsize : 0 < size := by omega
  rw [content, Nat.mul_comm, Nat.mul_add_div hsize, Nat.div_eq_of_lt h, Nat.mul_add_mod,
    Nat.mod_eq_of_lt h]
  simp

/-! ### Tables that change while a chain is followed -/

/-- The entry of the first cluster in `table (k + 1)`, of the second in `table (k + 2)` and so on
name the next cluster, and the last one is at least `0xFF0`. -/
def Follows (table : ℕ → ℕ → BitVec 8) : ℕ → List ℕ → Prop
  | _, [] => False
  | k, [c] => 0xFF0 ≤ entry (table (k + 1)) c
  | k, c :: d :: cs => entry (table (k + 1)) c = d ∧ d < 0xFF0 ∧ Follows table (k + 1) (d :: cs)

instance decidableFollows (table : ℕ → ℕ → BitVec 8) : ∀ k cs, Decidable (Follows table k cs)
  | _, [] => inferInstanceAs (Decidable False)
  | k, [c] => inferInstanceAs (Decidable (0xFF0 ≤ entry (table (k + 1)) c))
  | k, c :: d :: cs =>
    have := decidableFollows table (k + 1) (d :: cs)
    inferInstanceAs (Decidable (entry (table (k + 1)) c = d ∧ d < 0xFF0 ∧
      Follows table (k + 1) (d :: cs)))

/-- Tables with the same entries for the clusters of the list, when each is read, lead through
the same clusters. -/
theorem Follows.congr {table table' : ℕ → ℕ → BitVec 8} {cs : List ℕ} (h : Follows table k cs)
    (he : ∀ i c, cs[i]? = some c → entry (table (k + i + 1)) c = entry (table' (k + i + 1)) c) :
    Follows table' k cs := by
  induction cs generalizing k with
  | nil => exact h
  | cons c cs ih =>
    have hc := he 0 c rfl
    cases cs with
    | nil => rwa [Follows, ← hc]
    | cons d cs =>
      obtain ⟨h1, h2, h3⟩ := h
      refine ⟨by rwa [← hc], h2, ih h3 fun i e hi => ?_⟩
      rw [Nat.add_right_comm k 1 i]
      exact he (i + 1) e (by simpa using hi)

/-- A chain of clusters below `0xFF0` is followed through a table that does not change. -/
theorem Chain.follows {cs : List ℕ} (h : Chain fat cs) (hlt : ∀ c ∈ cs, c < 0xFF0) :
    Follows (fun _ => fat) k cs := by
  induction cs generalizing k with
  | nil => exact h
  | cons c cs ih =>
    cases cs with
    | nil =>
      have : 0xFF8 ≤ entry fat c := h
      exact Nat.le_trans (by decide) this
    | cons d cs =>
      exact ⟨h.1, hlt d (by simp), ih h.2 fun e he => hlt e (List.mem_cons_of_mem _ he)⟩

end FanOS.Fat12
