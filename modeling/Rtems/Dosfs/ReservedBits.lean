import Rtems.Dosfs.FileArray

/-!
# The reserved bits of an entry

The upper four bits of an entry of FAT32 are kept when the entry is set. They are not removed when it
is read, so an entry is the value that was set only if they are clear.
-/

namespace Rtems.Dosfs

open FsInfo

/-- A value in the bits that an entry has for it. -/
def FatType.significant (type : FatType) (value : Nat) : Nat := value % (type.mask + 1)

/-- The entry of a cluster is independent of the other entries and of its reserved bits. -/
structure Independent (fs : FsInfo) (cln : Nat) : Prop where
  read : (fs.getFatCluster cln).1 = .ok (fs.vol.type.significant (fs.table cln))
  set : ∀ value, ∃ after, fs.setFatCluster cln value = (.ok (), after) ∧
    (after.getFatCluster cln).1 = .ok (fs.vol.type.significant value) ∧
    (fs.vol.type = .fat32 → after.table cln / 2 ^ 28 = fs.table cln / 2 ^ 28) ∧
    ∀ other, Valid fs.vol other → other ≠ cln →
      (after.getFatCluster other).1 = (fs.getFatCluster other).1
  free : fs.vol.type.significant (fs.table cln) = genfatFree → ∀ scan : Scan, scan.cl4find = cln →
    scan.clsAdded = 0 → ∃ taken, (scanLoop 1 false 1 fs scan).1 = .ok taken ∧ taken.chain = cln
  followed : ∀ next, (fs.getFatCluster cln).1 = .ok next →
    Valid fs.vol (fs.vol.type.significant next) →
    ∃ value, ((fs.getFatCluster cln).2.getFatCluster next).1 = .ok value

variable {fs : FsInfo} {cln : Nat}

theorem entry12_lt (cln : Nat) (first second : UInt8) : entry12 cln first second < 2 ^ 12 := by
  have low := first.toNat_lt
  have high := second.toNat_lt
  rw [entry12]
  split <;> omega

/-- The significant bits are the entry if its reserved bits are clear. -/
theorem significant_table (fs : FsInfo) (cln : Nat) :
    fs.vol.type.significant (fs.table cln) = fs.table cln ↔ Clear fs.vol.type (fs.table cln) := by
  have bounded : fs.vol.type ≠ .fat32 → fs.table cln ≤ fs.vol.type.mask := by
    intro small
    rw [FsInfo.table]
    split
    case isFalse => exact Nat.zero_le _
    case isTrue =>
      rw [entryIn]
      cases type : fs.vol.type with
      | fat12 => exact Nat.le_of_lt_succ (entry12_lt cln _ _)
      | fat16 => exact Nat.le_of_lt_succ (getVal_lt _ _ 2)
      | fat32 => exact absurd type small
  rw [FatType.significant, Nat.mod_eq_iff_lt (Nat.succ_ne_zero _), Nat.lt_succ_iff]
  constructor
  · intro less type
    rw [type] at less
    exact Nat.lt_succ_of_le less
  · intro clear
    by_cases type : fs.vol.type = .fat32
    · rw [type]
      exact Nat.le_of_lt_succ (clear type)
    · exact bounded type

theorem storedEntry_significant {type : FatType} {old : Nat} (clear : Clear type old) (value : Nat) :
    storedEntry type old value = type.significant value := by
  cases type with
  | fat12 | fat16 => rfl
  | fat32 =>
    have small := clear rfl
    rw [storedEntry, FatType.significant, FatType.mask]
    omega

theorem storedEntry_reserved (old value : Nat) :
    storedEntry .fat32 old value / 2 ^ 28 = old / 2 ^ 28 := by
  rw [storedEntry]
  omega

/-- Reading returns the entry, whatever its reserved bits are. -/
theorem read_entry (ready : Ready fs) (valid : Valid fs.vol cln) :
    (fs.getFatCluster cln).1 = .ok (fs.table cln) := by
  obtain ⟨after, read, _⟩ := getFatCluster_spec ready valid
  rw [read]

/-- The entry of a cluster is independent exactly if its reserved bits are clear. -/
theorem independent_iff (ready : Ready fs) (valid : Valid fs.vol cln) :
    Independent fs cln ↔ Clear fs.vol.type (fs.table cln) := by
  have answer := read_entry ready valid
  constructor
  · intro independent
    rw [independent.read] at answer
    exact (significant_table fs cln).mp (Except.ok.inj answer)
  · intro clear
    have whole := (significant_table fs cln).mpr clear
    refine ⟨answer.trans (congrArg _ whole.symm), ?_, ?_, ?_⟩
    · intro value
      obtain ⟨after, wrote, becomes⟩ := setFatCluster_clusters ready valid value
      have table : after.table = _ := congrArg Clusters.table becomes.clusters
      have here : after.table cln = storedEntry fs.vol.type (fs.table cln) value := by
        rw [table]
        exact Function.update_self ..
      refine ⟨after, wrote, ?_, ?_, ?_⟩
      · rw [read_entry becomes.ready (becomes.vol ▸ valid), here, storedEntry_significant clear]
      · intro type
        rw [here, type, storedEntry_reserved]
      · intro other inside distinct
        rw [read_entry becomes.ready (becomes.vol ▸ inside), read_entry ready inside, table]
        exact congrArg _ (Function.update_of_ne distinct ..)
    · intro zero scan found none
      rw [whole] at zero
      obtain ⟨middle, read, becomes⟩ := getFatCluster_clusters ready valid
      obtain ⟨after, wrote, _⟩ := setFatCluster_clusters becomes.ready (becomes.vol ▸ valid) genfatEoc
      have entry : fs.clusters.table cln = genfatFree := zero
      rw [scanLoop, none, if_neg (by decide), found, read, entry]
      dsimp only
      rw [if_pos rfl, scanTake, none, if_pos (by decide), found, wrote]
      exact ⟨_, rfl, rfl⟩
    · intro next returned inside
      obtain ⟨middle, read, becomes⟩ := getFatCluster_clusters ready valid
      obtain rfl : fs.table cln = next := Except.ok.inj (answer.symm.trans returned)
      rw [whole] at inside
      exact ⟨_, by rw [read]; exact read_entry becomes.ready (becomes.vol ▸ inside)⟩

theorem card_independent : Independent card 4 :=
  (independent_iff card_ready (by decide)).mpr (fun _ => by decide)

/-- The end of a chain is read with its reserved bits. -/
theorem card_not_independent : ¬ ∀ fs : FsInfo, Ready fs → ∀ cln, Valid fs.vol cln →
    Independent fs cln := by
  intro all
  have read := (all card card_ready 3 (by decide)).read
  exact absurd (Except.ok.inj read) (by decide)

end Rtems.Dosfs
