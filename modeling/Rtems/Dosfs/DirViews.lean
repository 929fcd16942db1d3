import Rtems.Dosfs.DirEntries

/-!
# Directories as sequences of entries

What the blocks of a directory hold is a sequence of entries, which ends with end marks. As no two directories share a
place of the volume, a write of an entry changes one place of one sequence.
-/

namespace Rtems.Dosfs.Tree

open Function (update update_of_ne update_self)

/-- The sequences of the entries of all directories, by their first clusters, and the counts of the entries. -/
@[ext]
structure Listing where
  count : Nat → Nat
  entry : Nat → Nat → Entry

variable {dir' o : Nat} {entries : List Entry}

namespace Listing

/-- An entry changes. -/
def set (tree : Listing) (dir i : Nat) (entry : Entry) : Listing :=
  { tree with entry := Function.update tree.entry dir (Function.update (tree.entry dir) i entry) }

/-- A run of entries changes. -/
def put (tree : Listing) (dir : Nat) : Nat → List Entry → Listing
  | _, [] => tree
  | i, entry :: rest => (tree.set dir i entry).put dir (i + 1) rest

section

variable (tree : Listing)

@[simp] theorem set_count (dir i : Nat) (entry : Entry) : (tree.set dir i entry).count = tree.count :=
  rfl

@[simp] theorem set_self (dir i : Nat) (entry : Entry) :
    (tree.set dir i entry).entry dir i = entry := by
  simp [set]

theorem set_other {dir i i' : Nat} (entry : Entry) (other : ¬ (dir' = dir ∧ i' = i)) :
    (tree.set dir i entry).entry dir' i' = tree.entry dir' i' := by
  by_cases same : dir' = dir
  · subst same
    simp only [set, update_self]
    exact update_of_ne (fun equal => other ⟨rfl, equal⟩) _ _
  · simp only [set, update_of_ne same]

@[simp] theorem put_count (dir i : Nat) (entries : List Entry) :
    (tree.put dir i entries).count = tree.count := by
  induction entries generalizing tree i with
  | nil => rfl
  | cons entry rest ih => exact ih _ _

theorem put_other {dir i : Nat} (entries : List Entry)
    (other : ¬ (dir' = dir ∧ o ≤ i ∧ i < o + entries.length)) :
    (tree.put dir o entries).entry dir' i = tree.entry dir' i := by
  induction entries generalizing tree o with
  | nil => rfl
  | cons entry rest ih =>
    rw [List.length_cons] at other
    rw [put, ih _ (fun inside => other (by omega)), set_other _ _ (fun same => other (by omega))]

end

theorem put_inside (tree : Listing) {dir k : Nat} {entry : Entry}
    (listed : entries[k]? = some entry) : (tree.put dir o entries).entry dir (o + k) = entry := by
  induction entries generalizing tree o k with
  | nil => cases listed
  | cons first rest ih =>
    cases k with
    | zero =>
      cases listed
      rw [put, put_other _ _ (fun inside => by omega), Nat.add_zero, set_self]
    | succ k =>
      have later := ih (tree.set dir o first) (o := o + 1) (k := k) listed
      rw [put, ← later, Nat.add_right_comm, Nat.add_assoc]

end Listing

/-- The parts of a volume follow each other in words, and the root directory of FAT32 is in a cluster. -/
structure Linear (vol : Volume) : Prop extends vol.Sized where
  root : vol.rdirLoc + vol.rdirSecs = vol.dataFsec
  data : vol.dataFsec + vol.dataCls * vol.spc ≤ 2 ^ 32
  rootCluster : vol.type = .fat32 → 2 ≤ vol.rdirCl ∧ vol.rdirCl < vol.dataCls + 2
  rootEntries : vol.type ≠ .fat32 → 0 < vol.rdirSecs

/-- The chains start with their first clusters, have clusters of the volume and share none. -/
structure Chained (vol : Volume) (disk : Disk) : Prop where
  head : ∀ cln, disk.chain cln ≠ [] → (disk.chain cln).head? = some cln
  range : ∀ cln x, x ∈ disk.chain cln → 2 ≤ x ∧ x < vol.dataCls + 2
  apart : ∀ cln cln' x, x ∈ disk.chain cln → x ∈ disk.chain cln' → cln = cln'
  nodup : ∀ cln, (disk.chain cln).Nodup

variable {vol : Volume} {disk : Disk} {dir i : Nat}

/-- The root directory of FAT12 and FAT16. -/
theorem fdOf_fixed : (fdOf vol dir).fixed vol = true ↔ dir = vol.rdirCl ∧ vol.type ≠ .fat32 := by
  simp [DirFd.fixed, fdOf]

theorem clusters_chain (unfixed : ¬ (fdOf vol dir).fixed vol = true) :
    clusters vol disk (fdOf vol dir) = disk.chain dir ∧ bts2rd vol (fdOf vol dir) = vol.bpc :=
  ⟨if_neg unfixed, if_neg unfixed⟩

theorem clusters_fixed (fixed : (fdOf vol dir).fixed vol = true) :
    clusters vol disk (fdOf vol dir) = [0] ∧ bts2rd vol (fdOf vol dir) = vol.rdirSize :=
  ⟨if_pos fixed, if_pos fixed⟩

/-- The place of the start of a cluster. -/
def base (vol : Volume) (cln : Nat) : Nat := (vol.dataFsec + (cln - 2) * vol.spc) * vol.bps

namespace Linear

variable (linear : Linear vol)
include linear

theorem bpc_entries : ∃ k, vol.bpc = k * 32 ∧ 16 ≤ k := by
  have single := linear.single
  have cluster := linear.cluster
  refine ⟨2 ^ (vol.bpcLog2 - 5), ?_, ?_⟩
  · rw [linear.bpc]
    calc 2 ^ vol.bpcLog2 = 2 ^ (vol.bpcLog2 - 5 + 5) := by rw [Nat.sub_add_cancel (by omega)]
      _ = 2 ^ (vol.bpcLog2 - 5) * 32 := Nat.pow_add _ _ _
  · calc 16 = 2 ^ 4 := rfl
      _ ≤ 2 ^ (vol.bpcLog2 - 5) := Nat.pow_le_pow_right (by decide) (by omega)

theorem rdirSize_entries (fixed : vol.type ≠ .fat32) : ∃ k, vol.rdirSize = k * 32 ∧ 16 ≤ k := by
  have single := linear.single
  have some := linear.rootEntries fixed
  have sector : 16 ≤ 2 ^ (vol.secLog2 - 5) :=
    calc 16 = 2 ^ 4 := rfl
      _ ≤ 2 ^ (vol.secLog2 - 5) := Nat.pow_le_pow_right (by decide) (by omega)
  refine ⟨vol.rdirSecs * 2 ^ (vol.secLog2 - 5), ?_, ?_⟩
  · rw [linear.rdirSize, linear.bps, Nat.mul_assoc]
    congr 1
    calc 2 ^ vol.secLog2 = 2 ^ (vol.secLog2 - 5 + 5) := by rw [Nat.sub_add_cancel (by omega)]
      _ = 2 ^ (vol.secLog2 - 5) * 32 := Nat.pow_add _ _ _
  · exact sector.trans (Nat.le_mul_of_pos_left _ some)

theorem block_entries (dir : Nat) : ∃ k, bts2rd vol (fdOf vol dir) = k * 32 ∧ 16 ≤ k := by
  by_cases fixed : (fdOf vol dir).fixed vol = true
  · rw [(@clusters_fixed vol ⟨fun _ => .last, fun _ => []⟩ dir fixed).2]
    exact linear.rdirSize_entries (fdOf_fixed.mp fixed).2
  · rw [(@clusters_chain vol ⟨fun _ => .last, fun _ => []⟩ dir fixed).2]
    exact linear.bpc_entries

variable {cln ofs : Nat}

theorem address_cluster (least : 2 ≤ cln) (most : cln < vol.dataCls + 2) :
    address vol ⟨cln, ofs⟩ = base vol cln + ofs := by
  have data := linear.data
  have scaled : (cln - 2) * vol.spc + vol.spc ≤ vol.dataCls * vol.spc := by
    rw [← Nat.succ_mul]
    exact Nat.mul_le_mul_right _ (by omega)
  have positive : 0 < vol.spc := by
    rw [linear.spc]
    exact Nat.two_pow_pos _
  have numbers : vol.dataCls ≤ vol.dataCls * vol.spc := Nat.le_mul_of_pos_right _ positive
  have word : minus cln rsrvdCln = cln - 2 := by
    rw [minus, rsrvdCln]
    omega
  have sector : clusterNumToSectorNum vol cln = vol.dataFsec + (cln - 2) * vol.spc := by
    rw [clusterNumToSectorNum, if_neg (by omega), word, ← linear.spc, Nat.add_comm, Nat.mod_eq_of_lt (by omega)]
  rw [address, sector, base]

omit linear in
/-- A place in the root directory of FAT12 and FAT16. -/
theorem address_fixed (fixed : vol.type ≠ .fat32) : address vol ⟨0, ofs⟩ = vol.rdirLoc * vol.bps + ofs := by
  rw [address, clusterNumToSectorNum, if_pos ⟨rfl, fixed⟩]

/-- The clusters do not overlap. -/
theorem base_le {cln' : Nat} (least : 2 ≤ cln) (before : cln < cln') : base vol cln + vol.bpc ≤ base vol cln' := by
  obtain ⟨k, rfl⟩ : ∃ k, cln' = cln + 1 + k := ⟨cln' - (cln + 1), by omega⟩
  have next : cln + 1 + k - 2 = cln - 2 + 1 + k := by omega
  rw [base, base, next, linear.bpc_eq, ← Nat.add_mul]
  refine Nat.mul_le_mul_right _ ?_
  rw [Nat.add_mul, Nat.add_mul, Nat.one_mul]
  omega

theorem base_injective {cln' ofs' : Nat} (least : 2 ≤ cln) (least' : 2 ≤ cln') (inside : ofs < vol.bpc)
    (inside' : ofs' < vol.bpc) (equal : base vol cln + ofs = base vol cln' + ofs') : cln = cln' ∧ ofs = ofs' := by
  rcases Nat.lt_trichotomy cln cln' with before | rfl | after
  · have bound := linear.base_le least before
    omega
  · exact ⟨rfl, by omega⟩
  · have bound := linear.base_le least' after
    omega

/-- The root directory of FAT12 and FAT16 is in front of the clusters. -/
theorem root_before (cln : Nat) : vol.rdirLoc * vol.bps + vol.rdirSize ≤ base vol cln := by
  rw [base, linear.rdirSize, ← Nat.add_mul, linear.root]
  exact Nat.mul_le_mul_right _ (by omega)

end Linear

theorem size_mul (linear : Linear vol) (dir : Nat) :
    size vol disk (fdOf vol dir) * 32 = (clusters vol disk (fdOf vol dir)).length * bts2rd vol (fdOf vol dir) := by
  obtain ⟨k, block, _⟩ := linear.block_entries dir
  rw [size, fileSize, block, ← Nat.mul_assoc, Nat.mul_div_cancel _ (by decide)]

/-- An entry of a directory is in one of its clusters. -/
theorem cluster_index (linear : Linear vol) (inside : i < size vol disk (fdOf vol dir)) :
    32 * i / bts2rd vol (fdOf vol dir) < (clusters vol disk (fdOf vol dir)).length := by
  have bytes := @size_mul vol disk linear dir
  exact Nat.div_lt_of_lt_mul (by rw [Nat.mul_comm (bts2rd _ _)]; omega)

/-- Where an entry is: in the root directory of FAT12 and FAT16, or in a cluster of the chain. -/
theorem place_cases (linear : Linear vol) (chained : Chained vol disk) (inside : i < size vol disk (fdOf vol dir)) :
    (dir = vol.rdirCl ∧ vol.type ≠ .fat32 ∧ 32 * i < vol.rdirSize ∧
        place vol disk (fdOf vol dir) i = ⟨0, 32 * i⟩ ∧
        address vol (place vol disk (fdOf vol dir) i) = vol.rdirLoc * vol.bps + 32 * i) ∨
      ∃ cln, ¬ (fdOf vol dir).fixed vol = true ∧ (disk.chain dir)[32 * i / vol.bpc]? = some cln ∧ 2 ≤ cln ∧
        cln < vol.dataCls + 2 ∧ place vol disk (fdOf vol dir) i = ⟨cln, 32 * i % vol.bpc⟩ ∧
        address vol (place vol disk (fdOf vol dir) i) = base vol cln + 32 * i % vol.bpc := by
  have index := cluster_index linear inside
  by_cases fixed : (fdOf vol dir).fixed vol = true
  · obtain ⟨same, type⟩ := fdOf_fixed.mp fixed
    obtain ⟨single, block⟩ := @clusters_fixed vol disk dir fixed
    have bytes := @size_mul vol disk linear dir
    rw [single, block, List.length_singleton, Nat.one_mul] at bytes
    have start : place vol disk (fdOf vol dir) i = ⟨0, 32 * i⟩ := by
      rw [place, single, block, Nat.div_eq_of_lt (by omega), Nat.mod_eq_of_lt (by omega)]
      rfl
    exact .inl ⟨same, type, by omega, start, by rw [start, Linear.address_fixed type]⟩
  · obtain ⟨chain, block⟩ := @clusters_chain vol disk dir fixed
    rw [chain, block] at index
    have found := List.getElem?_eq_getElem index
    obtain ⟨least, most⟩ := chained.range dir _ (List.getElem_mem index)
    have start : place vol disk (fdOf vol dir) i = ⟨(disk.chain dir)[32 * i / vol.bpc], 32 * i % vol.bpc⟩ := by
      rw [place, chain, block, found]
      rfl
    exact .inr ⟨_, fixed, found, least, most, start, by rw [start, linear.address_cluster least most]⟩

/-- Two entries are in two places. -/
theorem place_injective (linear : Linear vol) (chained : Chained vol disk) {i' : Nat}
    (inside : i < size vol disk (fdOf vol dir)) (inside' : i' < size vol disk (fdOf vol dir'))
    (equal : address vol (place vol disk (fdOf vol dir) i) = address vol (place vol disk (fdOf vol dir') i')) :
    dir = dir' ∧ i = i' := by
  have positive : 0 < vol.bpc := by
    obtain ⟨k, size, some⟩ := linear.bpc_entries
    omega
  obtain ⟨same, _, within, _, here⟩ | ⟨cln, _, found, least, _, _, here⟩ := place_cases linear chained inside
  · obtain ⟨same', _, _, _, there⟩ | ⟨cln', _, _, _, _, _, there⟩ := place_cases linear chained inside'
    · exact ⟨same.trans same'.symm, by omega⟩
    · have before := linear.root_before cln'
      omega
  · obtain ⟨_, _, within', _, there⟩ | ⟨cln', _, found', least', _, _, there⟩ := place_cases linear chained inside'
    · have before := linear.root_before cln
      omega
    · obtain ⟨rfl, offset⟩ := linear.base_injective least least' (Nat.mod_lt _ positive) (Nat.mod_lt _ positive)
        (here.symm.trans (equal.trans there))
      obtain rfl := chained.apart dir dir' cln (List.mem_of_getElem? found) (List.mem_of_getElem? found')
      have block : 32 * i / vol.bpc = 32 * i' / vol.bpc := by
        obtain ⟨bound, _⟩ := List.getElem?_eq_some_iff.mp found
        exact (List.getElem?_inj bound (chained.nodup dir)).mp (found.trans found'.symm)
      have whole := Nat.div_add_mod (32 * i) vol.bpc
      have whole' := Nat.div_add_mod (32 * i') vol.bpc
      rw [block, offset, whole'] at whole
      exact ⟨rfl, by omega⟩

/-- The entries of the directories. Behind the last one are end marks. -/
def view (vol : Volume) (disk : Disk) : Listing where
  count dir := size vol disk (fdOf vol dir)
  entry dir i := if i < size vol disk (fdOf vol dir) then entryAt vol disk (fdOf vol dir) i else .last

theorem view_entry (inside : i < size vol disk (fdOf vol dir)) :
    (view vol disk).entry dir i = entryAt vol disk (fdOf vol dir) i := if_pos inside

theorem view_beyond (beyond : (view vol disk).count dir ≤ i) : (view vol disk).entry dir i = .last :=
  if_neg (Nat.not_lt.mpr beyond)

/-- A write of an entry. -/
theorem view_set (linear : Linear vol) (chained : Chained vol disk) (inside : i < size vol disk (fdOf vol dir))
    (entry : Entry) :
    view vol { disk with entries := update disk.entries (address vol (place vol disk (fdOf vol dir) i)) entry } =
      (view vol disk).set dir i entry := by
  refine Listing.ext rfl (funext fun dir' => funext fun i' => ?_)
  by_cases within : i' < size vol disk (fdOf vol dir')
  · by_cases same : dir' = dir ∧ i' = i
    · obtain ⟨rfl, rfl⟩ := same
      rw [Listing.set_self]
      exact (if_pos inside).trans (update_self _ _ _)
    · rw [Listing.set_other _ _ same, view_entry within]
      refine (if_pos within).trans (update_of_ne (fun equal => same ?_) _ _)
      exact place_injective linear chained within inside equal
  · have other : ¬ (dir' = dir ∧ i' = i) := by
      rintro ⟨rfl, rfl⟩
      exact within inside
    rw [Listing.set_other _ _ other]
    exact (if_neg within).trans (if_neg within).symm

theorem writeAll_congr {spot spot' : Nat → Nat} (start : Nat → Entry)
    (same : ∀ i, o ≤ i → i < o + entries.length → spot i = spot' i) :
    writeAll spot entries o start = writeAll spot' entries o start := by
  induction entries generalizing o start with
  | nil => rfl
  | cons entry rest ih =>
    rw [List.length_cons] at same
    rw [writeAll, writeAll, same o (Nat.le_refl o) (by omega)]
    exact ih _ fun i least most => same i (by omega) (by omega)

/-- A write of a run of entries. -/
theorem view_put (linear : Linear vol) (chained : Chained vol disk)
    (inside : o + entries.length ≤ size vol disk (fdOf vol dir)) :
    view vol { disk with
      entries := writeAll (fun i => address vol (place vol disk (fdOf vol dir) i)) entries o disk.entries } =
      (view vol disk).put dir o entries := by
  induction entries generalizing disk o with
  | nil => rfl
  | cons entry rest ih =>
    rw [List.length_cons] at inside
    rw [Listing.put, ← view_set linear chained (by omega) entry]
    have later : o + 1 + rest.length ≤ size vol disk (fdOf vol dir) := by omega
    have linked : Chained vol { disk with
        entries := update disk.entries (address vol (place vol disk (fdOf vol dir) o)) entry } :=
      { chained with }
    exact ih linked later

end Rtems.Dosfs.Tree
