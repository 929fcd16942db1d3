import Mathlib.Data.List.Nodup

/-!
# The segments of a flash disk

`rtems_fdisk_initialize` makes a control for each segment of each descriptor of a device. The
control holds the number of the segment in its descriptor. The operations use this number as an
index of the controls of the device to find the descriptor, and hand it to the driver, for which
a segment of a descriptor has a number from its base segment number on.
-/

namespace Rtems.Block.FlashSegments

/-- `rtems_fdisk_segment_desc`; where the segments lie is up to the driver. -/
structure SegmentDesc where
  count : Nat
  segment : Nat

/-- `rtems_fdisk_segment_ctl`, with the index of the descriptor in its device. -/
structure SegmentCtl where
  descriptor : Nat
  device : Nat
  segment : Nat
deriving DecidableEq

/-- The controls of the segments of a device. -/
def deviceSegments (device : Nat) (segments : List SegmentDesc) : List SegmentCtl :=
  (segments.mapIdx fun descriptor sd =>
    (List.range sd.count).map fun segSegment => ⟨descriptor, device, segSegment⟩).flatten

/-- `rtems_fdisk_initialize`: the controls of each device. -/
def fdiskInitialize (devices : List (List SegmentDesc)) : List (List SegmentCtl) :=
  devices.mapIdx deviceSegments

/-- `rtems_fdisk_seg_descriptor`. -/
def segDescriptor (fd : List (List SegmentCtl)) (device segment : Nat) : Option Nat :=
  fd[device]?.bind fun segments => segments[segment]?.map (·.descriptor)

/-- The device, the descriptor and the segment that `rtems_fdisk_seg_read`, and the other
operations, hand to the driver. -/
def access (fd : List (List SegmentCtl)) (sc : SegmentCtl) : Nat × Option Nat × Nat :=
  (sc.device, segDescriptor fd sc.device sc.segment, sc.segment)

/-- The driver is called with the own descriptor of a control and a segment inside it, and no
two controls have the same segment. -/
structure Addressed (devices : List (List SegmentDesc)) : Prop where
  own : ∀ device segments, devices[device]? = some segments →
    ∀ sc ∈ deviceSegments device segments, ∃ sd, segments[sc.descriptor]? = some sd ∧
      access (fdiskInitialize devices) sc = (device, some sc.descriptor, sc.segment) ∧
      sd.segment ≤ sc.segment ∧ sc.segment < sd.segment + sd.count
  distinct : ((fdiskInitialize devices).flatten.map (access (fdiskInitialize devices))).Nodup

/-- At most one descriptor has segments, and its base segment is the first one. -/
def Uniform (segments : List SegmentDesc) : Prop :=
  (∀ i j : Fin segments.length, 0 < segments[i].count → 0 < segments[j].count → i = j) ∧
  ∀ sd ∈ segments, 0 < sd.count → sd.segment = 0

theorem mem_deviceSegments {dev : Nat} {segments : List SegmentDesc} {sc : SegmentCtl} :
    sc ∈ deviceSegments dev segments ↔ sc.device = dev ∧
      ∃ sd, segments[sc.descriptor]? = some sd ∧ sc.segment < sd.count := by
  simp only [deviceSegments, List.mem_flatten, List.mem_mapIdx]
  constructor
  · rintro ⟨_, ⟨descriptor, inside, rfl⟩, mem⟩
    obtain ⟨segment, below, rfl⟩ := List.mem_map.mp mem
    exact ⟨rfl, _, List.getElem?_eq_getElem inside, List.mem_range.mp below⟩
  · rintro ⟨rfl, sd, found, below⟩
    obtain ⟨inside, rfl⟩ := List.getElem?_eq_some_iff.mp found
    exact ⟨_, ⟨_, inside, rfl⟩, List.mem_map.mpr ⟨_, List.mem_range.mpr below, rfl⟩⟩

theorem deviceSegments_nodup (dev : Nat) (segments : List SegmentDesc) :
    (deviceSegments dev segments).Nodup := by
  refine List.nodup_flatten.mpr ⟨?_, List.pairwise_iff_getElem.mpr ?_⟩
  · intro row mem
    obtain ⟨descriptor, inside, rfl⟩ := List.mem_mapIdx.mp mem
    exact List.nodup_range.map fun _ _ same => congrArg SegmentCtl.segment same
  · intro i j _ _ before sc left right
    rw [List.getElem_mapIdx, List.mem_map] at left right
    obtain ⟨_, -, rfl⟩ := left
    obtain ⟨_, -, same⟩ := right
    exact (Nat.ne_of_lt before) (congrArg SegmentCtl.descriptor same).symm

theorem fdiskInitialize_nodup (devices : List (List SegmentDesc)) :
    (fdiskInitialize devices).flatten.Nodup := by
  refine List.nodup_flatten.mpr ⟨?_, List.pairwise_iff_getElem.mpr ?_⟩
  · intro table mem
    obtain ⟨dev, inside, rfl⟩ := List.mem_mapIdx.mp mem
    exact deviceSegments_nodup _ _
  · intro i j _ _ before sc left right
    simp only [fdiskInitialize, List.getElem_mapIdx, mem_deviceSegments] at left right
    exact (Nat.ne_of_lt before) (left.1.symm.trans right.1)

variable {devices : List (List SegmentDesc)} {device : Nat} {segments : List SegmentDesc}

theorem segDescriptor_eq (known : devices[device]? = some segments) (segment : Nat) :
    segDescriptor (fdiskInitialize devices) device segment =
      (deviceSegments device segments)[segment]?.map (·.descriptor) := by
  rw [segDescriptor, fdiskInitialize, List.getElem?_mapIdx, known]
  rfl

/-- The first segment of a descriptor is accessed with it, and is the base segment. -/
theorem Addressed.first (addressed : Addressed devices) (known : devices[device]? = some segments)
    {descriptor : Nat} {sd : SegmentDesc} (found : segments[descriptor]? = some sd)
    (filled : 0 < sd.count) :
    (deviceSegments device segments)[0]?.map (·.descriptor) = some descriptor ∧ sd.segment = 0 := by
  obtain ⟨own, same, triple, base, -⟩ := addressed.own device segments known
    ⟨descriptor, device, 0⟩ (mem_deviceSegments.mpr ⟨rfl, sd, found, filled⟩)
  cases found.symm.trans same
  exact ⟨(segDescriptor_eq known 0).symm.trans (congrArg (·.2.1) triple), Nat.le_zero.mp base⟩

/-- In a uniform device the descriptor is found. -/
theorem Uniform.access_eq (uniform : Uniform segments) (known : devices[device]? = some segments)
    {sc : SegmentCtl} (mem : sc ∈ deviceSegments device segments) :
    access (fdiskInitialize devices) sc = (device, some sc.descriptor, sc.segment) := by
  obtain ⟨rfl, sd, found, below⟩ := mem_deviceSegments.mp mem
  obtain ⟨inside, rfl⟩ := List.getElem?_eq_some_iff.mp found
  have long : segments[sc.descriptor].count ≤ (deviceSegments sc.device segments).length := by
    have row := List.sublist_flatten_of_mem (List.mem_mapIdx.mpr ⟨sc.descriptor, inside, rfl⟩ :
      _ ∈ segments.mapIdx fun descriptor sd => (List.range sd.count).map
        fun segSegment => (⟨descriptor, sc.device, segSegment⟩ : SegmentCtl))
    have length := row.length_le
    rwa [List.length_map, List.length_range] at length
  have there : sc.segment < (deviceSegments sc.device segments).length := by omega
  obtain ⟨-, other, listed, positive⟩ := mem_deviceSegments.mp (List.getElem_mem there)
  obtain ⟨bound, rfl⟩ := List.getElem?_eq_some_iff.mp listed
  have same := uniform.1 ⟨_, bound⟩ ⟨_, inside⟩ (Nat.zero_lt_of_lt positive)
    (Nat.zero_lt_of_lt below)
  rw [access, segDescriptor_eq known, List.getElem?_eq_getElem there, Option.map_some,
    Fin.mk.inj same]

/-- The segments are addressed well exactly if each device has segments of one descriptor only,
from its first segment on. -/
theorem segments_addressed_iff (devices : List (List SegmentDesc)) :
    Addressed devices ↔ ∀ segments ∈ devices, Uniform segments := by
  constructor
  · intro addressed segments member
    obtain ⟨device, known⟩ := List.getElem?_of_mem member
    refine ⟨fun i j left right => Fin.ext (Option.some.inj ?_), fun sd listed filled => ?_⟩
    · exact (addressed.first known (List.getElem?_eq_getElem i.2) left).1.symm.trans
        (addressed.first known (List.getElem?_eq_getElem j.2) right).1
    · obtain ⟨descriptor, found⟩ := List.getElem?_of_mem listed
      exact (addressed.first known found filled).2
  · intro uniform
    refine ⟨fun device segments known sc member => ?_, ?_⟩
    · have alike := uniform segments (List.mem_of_getElem? known)
      obtain ⟨rfl, sd, found, below⟩ := mem_deviceSegments.mp member
      have base := alike.2 sd (List.mem_of_getElem? found) (Nat.zero_lt_of_lt below)
      exact ⟨sd, found, alike.access_eq known member, by omega, by omega⟩
    · refine (fdiskInitialize_nodup devices).map_on fun sc left other right same => ?_
      have triple (sc : SegmentCtl) (member : sc ∈ (fdiskInitialize devices).flatten) :
          access (fdiskInitialize devices) sc = (sc.device, some sc.descriptor, sc.segment) := by
        obtain ⟨_, row, inside⟩ := List.mem_flatten.mp member
        obtain ⟨device, bound, rfl⟩ := List.mem_mapIdx.mp row
        rw [(uniform _ (List.getElem_mem bound)).access_eq (List.getElem?_eq_getElem bound) inside,
          (mem_deviceSegments.mp inside).1]
      rw [triple sc left, triple other right] at same
      cases sc
      simp_all

/-- The device of a board with four small segments and one large one. -/
theorem segments_not_addressed : ¬ Addressed [[⟨4, 0⟩, ⟨1, 4⟩]] := by
  intro addressed
  have first := @Addressed.first _ 0 _ addressed rfl 1 _ rfl (by decide)
  exact absurd first.2 (by decide)

end Rtems.Block.FlashSegments
