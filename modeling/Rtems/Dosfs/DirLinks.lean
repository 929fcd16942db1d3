import Rtems.Dosfs.DirChanges

/-!
# The links between directories

Every directory other than the root directory has one entry, in a directory whose number is in its entry for the
parent. Along these entries the directories get deeper, and no part of a long name reads as the cluster of a directory.
-/

namespace Rtems.Dosfs.Tree

open Function (update update_of_ne update_self)

/-- An entry that is not one of the first two of a directory, which are those of itself and of its parent. -/
def Proper (vol : Volume) (dir i : Nat) : Prop := dir = vol.rdirCl ∨ 2 ≤ i

/-- An entry of a directory is the one of another directory. -/
def Holds (vol : Volume) (tree : Listing) (dir i cln : Nat) : Prop :=
  Proper vol dir i ∧ ∃ name, tree.entry dir i = .short name true cln

/-- The number of a directory in an entry for the parent. -/
def dotdotNum (vol : Volume) (dir : Nat) : Nat := if dir = vol.rdirCl then 0 else dir

/-- The entries of files that are created here. Files have no clusters. -/
def Plain (name : Name) (directory : Bool) (cln : Nat) : Prop :=
  name ≠ dotName ∧ name ≠ dotdotName ∧ (directory = false → cln = 0)

/-- The directories are linked by their entries. -/
structure Linked (vol : Volume) (tree : Listing) : Prop where
  root : tree.count vol.rdirCl ≠ 0
  low : ∀ dir, tree.count dir ≠ 0 → dir ≠ vol.rdirCl → dir ≠ 0
  plain : ∀ dir i name directory cln, Proper vol dir i → tree.entry dir i = .short name directory cln →
    Plain name directory cln
  target : ∀ dir i cln, Holds vol tree dir i cln → cln ≠ vol.rdirCl ∧ tree.count cln ≠ 0
  once : ∀ dir i dir' i' cln, Holds vol tree dir i cln → Holds vol tree dir' i' cln → dir = dir' ∧ i = i'
  first : ∀ dir, dir ≠ vol.rdirCl → tree.count dir ≠ 0 → tree.entry dir 0 = .short dotName true dir
  owned : ∀ dir, dir ≠ vol.rdirCl → tree.count dir ≠ 0 →
    ∃ above i, Holds vol tree above i dir ∧ tree.entry dir 1 = .short dotdotName true (dotdotNum vol above)
  clear : ∀ dir i unit, tree.entry dir i = .long unit →
    tree.count (unit * 2 ^ 16) = 0 ∨ unit * 2 ^ 16 = vol.rdirCl
  deep : ∃ depth : Nat → Nat, ∀ dir i cln, Holds vol tree dir i cln → depth dir < depth cln

variable {vol : Volume} {before tree : Listing} {dir off : Nat} {units : List Nat}
  {entry : Entry}

/-- The directories stay linked if they stay the same ones with the same first two entries, and each has its entry in
the directory that had it. -/
theorem Linked.still (linked : Linked vol before)
    (count : ∀ other, tree.count other = 0 ↔ before.count other = 0) (kept : ∀ other i, other ≠
      vol.rdirCl → before.count other ≠ 0 → i < 2 → tree.entry other i = before.entry other i)
      (plain : ∀ other i name directory cln, Proper vol other i → tree.entry other i = .short name
      directory cln → Plain name directory cln) (clear : ∀ other i unit, tree.entry other i = .long
      unit → tree.count (unit * 2 ^ 16) = 0 ∨ unit * 2 ^ 16 = vol.rdirCl)
    (fewer : ∀ other i cln, Holds vol tree other i cln → ∃ i', Holds vol before other i' cln)
    (more : ∀ other i cln, Holds vol before other i cln → ∃ i', Holds vol tree other i' cln)
    (once : ∀ other i i' cln, Holds vol tree other i cln → Holds vol tree other i' cln → i = i') :
    Linked vol tree := by
  constructor
  case root => exact fun none => linked.root ((count _).mp none)
  case low => exact fun other some => linked.low other fun none => some ((count other).mpr none)
  case plain => exact plain
  case target =>
    intro other i cln holds
    obtain ⟨i', held⟩ := fewer other i cln holds
    obtain ⟨ne, some⟩ := linked.target other i' cln held
    exact ⟨ne, fun none => some ((count cln).mp none)⟩
  case once =>
    intro other i other' i' cln holds holds'
    obtain ⟨k, held⟩ := fewer other i cln holds
    obtain ⟨k', held'⟩ := fewer other' i' cln holds'
    obtain ⟨rfl, _⟩ := linked.once other k other' k' cln held held'
    exact ⟨rfl, once other i i' cln holds holds'⟩
  case first =>
    intro other ne some
    have opened : before.count other ≠ 0 := fun none => some ((count other).mpr none)
    rw [kept other 0 ne opened (by decide)]
    exact linked.first other ne opened
  case owned =>
    intro other ne some
    have opened : before.count other ≠ 0 := fun none => some ((count other).mpr none)
    obtain ⟨above, i, held, second⟩ := linked.owned other ne opened
    obtain ⟨i', holds⟩ := more above i other held
    exact ⟨above, i', holds, (kept other 1 ne opened (by decide)).trans second⟩
  case clear => exact clear
  case deep =>
    obtain ⟨depth, deeper⟩ := linked.deep
    refine ⟨depth, fun other i cln holds => ?_⟩
    obtain ⟨i', held⟩ := fewer other i cln holds
    exact deeper other i' cln held

variable {i : Nat}

/-- The first two entries of a directory are not free. -/
theorem Linked.first_two (linked : Linked vol before) (ne : dir ≠ vol.rdirCl)
    (opened : before.count dir ≠ 0) (low : i < 2) :
    ∃ name cln, before.entry dir i = .short name true cln := by
  obtain ⟨above, k, _, second⟩ := linked.owned dir ne opened
  cases i with
  | zero => exact ⟨_, _, linked.first dir ne opened⟩
  | succ i =>
    obtain rfl : i = 0 := by omega
    exact ⟨_, _, second⟩

/-- An entry behind the addition of a name. -/
theorem Added.cases (added : Added vol before tree dir off units entry) (other i : Nat) :
    (¬ (other = dir ∧ off ≤ i ∧ i ≤ off + units.length) ∧ tree.entry other i = before.entry other i) ∨
      (other = dir ∧ (before.entry dir i).IsFree ∧ ((∃ unit ∈ units, tree.entry dir i = .long unit) ∨
        i = off + units.length ∧ tree.entry dir i = entry)) := by
  by_cases inside : other = dir ∧ off ≤ i ∧ i ≤ off + units.length
  · obtain ⟨rfl, least, most⟩ := inside
    refine .inr ⟨rfl, added.free i least most, ?_⟩
    rcases Nat.lt_or_eq_of_le most with inner | rfl
    · exact .inl (added.long i least inner)
    · exact .inr ⟨rfl, added.short⟩
  · exact .inl ⟨inside, added.other other i inside⟩

variable {other : Nat}

variable {name : Name}

section

variable (added : Added vol before tree dir off units entry)
include added

/-- Entries that are not free stay. -/
theorem Added.keeps {cln : Nat} {directory : Bool}
    (taken : before.entry other i = .short name directory cln) :
    tree.entry other i = .short name directory cln := by
  obtain ⟨_, same⟩ | ⟨rfl, free, _⟩ := added.cases other i
  · exact same.trans taken
  · rw [taken] at free
    rcases free with wrong | wrong <;> cases wrong

/-- The new short entry is not one of the first two. -/
theorem Added.proper (linked : Linked vol before)
    (opened : before.count dir ≠ 0) : Proper vol dir (off + units.length) := by
  by_cases root : dir = vol.rdirCl
  · exact .inl root
  · refine .inr (Nat.not_lt.mp fun low => ?_)
    obtain ⟨name, cln, here⟩ := linked.first_two root opened low
    have free := added.free _ (Nat.le_add_right _ _) (Nat.le_refl _)
    rw [here] at free
    rcases free with wrong | wrong <;> cases wrong

theorem Added.count_zero (opened : before.count dir ≠ 0)
    (other : Nat) : tree.count other = 0 ↔ before.count other = 0 := by
  by_cases same : other = dir
  · subst same
    have grown := added.grown
    omega
  · rw [added.count other same]

/-- The short entries behind the addition of a name. -/
theorem Added.short_cases {cln : Nat} {directory : Bool}
    (here : tree.entry other i = .short name directory cln) :
    before.entry other i = .short name directory cln ∨
      other = dir ∧ i = off + units.length ∧ entry = .short name directory cln := by
  obtain ⟨_, same⟩ | ⟨rfl, _, ⟨unit, _, long⟩ | ⟨last, short⟩⟩ := added.cases other i
  · exact .inl (same.symm.trans here)
  · exact Entry.noConfusion (long.symm.trans here)
  · exact .inr ⟨rfl, last, short.symm.trans here⟩

/-- The parts of long names behind the addition of a name. -/
theorem Added.long_cases {unit : Nat} (short : ∀ unit, entry ≠ .long unit)
    (here : tree.entry other i = .long unit) :
    before.entry other i = .long unit ∨ unit ∈ units := by
  obtain ⟨_, same⟩ | ⟨rfl, _, ⟨unit', member, long⟩ | ⟨_, last⟩⟩ := added.cases other i
  · exact .inl (same.symm.trans here)
  · obtain rfl := Entry.long.inj (long.symm.trans here)
    exact .inr member
  · exact absurd (last.symm.trans here) (short unit)

end

theorem Linked.file (linked : Linked vol before)
    (added : Added vol before tree dir off units (.short name false 0))
    (opened : before.count dir ≠ 0) (plain : Plain name false 0)
    (clear : ∀ unit ∈ units, before.count (unit * 2 ^ 16) = 0 ∨ unit * 2 ^ 16 = vol.rdirCl) :
    Linked vol tree := by
  have held : ∀ other i cln, Holds vol tree other i cln ↔ Holds vol before other i cln := by
    intro other i cln
    constructor
    · rintro ⟨proper, name', here⟩
      obtain old | ⟨_, _, wrong⟩ := added.short_cases here
      · exact ⟨proper, name', old⟩
      · cases wrong
    · rintro ⟨proper, name', here⟩
      exact ⟨proper, name', added.keeps here⟩
  refine linked.still (added.count_zero opened) ?_ ?_ ?_ ?_ ?_ ?_
  · intro other i ne some low
    obtain ⟨name', cln, here⟩ := linked.first_two ne some low
    rw [here, added.keeps here]
  · intro other i name' directory cln proper here
    obtain old | ⟨_, _, same⟩ := added.short_cases here
    · exact linked.plain other i name' directory cln proper old
    · cases same
      exact plain
  · intro other i unit here
    rw [added.count_zero opened]
    obtain old | member := added.long_cases (fun _ => Entry.noConfusion) here
    · exact linked.clear other i unit old
    · exact clear unit member
  · intro other i cln holds
    exact ⟨i, (held other i cln).mp holds⟩
  · intro other i cln holds
    exact ⟨i, (held other i cln).mpr holds⟩
  · intro other i i' cln holds holds'
    exact (linked.once other i other i' cln ((held _ _ _).mp holds) ((held _ _ _).mp holds')).2

/-- A node that a lookup finds: a short entry that is not one of the first two of its directory, and the parts of its
name in front of it. -/
structure Found (tree : Listing) (node : Node) (name : Name) (directory : Bool) (cln : Nat) : Prop where
  order : node.first ≤ node.idx
  inside : node.idx < tree.count node.dir
  short : tree.entry node.dir node.idx = .short name directory cln
  named : name ≠ dotName ∧ name ≠ dotdotName
  long : ∀ i, node.first ≤ i → i < node.idx → ∃ unit, tree.entry node.dir i = .long unit

/-- The entries of a name are empty. -/
def wiped (tree : Listing) (node : Node) : Listing :=
  tree.put node.dir node.first (List.replicate (node.idx + 1 - node.first) .empty)

section Wiped

variable {node : Node} {name : Name} {directory : Bool} {cln : Nat}

/-- An entry behind the deletion of a name. -/
theorem wiped_cases (tree : Listing) (order : node.first ≤ node.idx) (other i : Nat) :
    (¬ (other = node.dir ∧ node.first ≤ i ∧ i ≤ node.idx) ∧ (wiped tree node).entry other i = tree.entry other i) ∨
      (other = node.dir ∧ node.first ≤ i ∧ i ≤ node.idx ∧ (wiped tree node).entry other i = .empty) := by
  by_cases inside : other = node.dir ∧ node.first ≤ i ∧ i ≤ node.idx
  · obtain ⟨rfl, least, most⟩ := inside
    obtain ⟨k, rfl⟩ : ∃ k, i = node.first + k := ⟨i - node.first, by omega⟩
    refine .inr ⟨rfl, least, most, Listing.put_inside _ ?_⟩
    rw [List.getElem?_replicate, if_pos (by omega)]
  · refine .inl ⟨inside, Listing.put_other _ _ ?_⟩
    rw [List.length_replicate]
    omega

section

variable (found : Found tree node name directory cln)
include found

/-- The entries of a name. -/
theorem Found.taken (least : node.first ≤ i) (most : i ≤ node.idx) :
    (∃ unit, tree.entry node.dir i = .long unit) ∨
      i = node.idx ∧ tree.entry node.dir i = .short name directory cln := by
  rcases Nat.lt_or_eq_of_le most with before | rfl
  · exact .inl (found.long i least before)
  · exact .inr ⟨rfl, found.short⟩

/-- A short entry behind the deletion of a name. -/
theorem Found.wiped_short {cln' : Nat} {name' : Name} {directory' : Bool} :
    (wiped tree node).entry other i = .short name' directory' cln' ↔
      tree.entry other i = .short name' directory' cln' ∧ ¬ (other = node.dir ∧ i = node.idx) := by
  obtain ⟨outside, same⟩ | ⟨rfl, least, most, empty⟩ := wiped_cases tree found.order other i
  · rw [same]
    have order := found.order
    exact ⟨fun here => ⟨here, fun wrong => outside ⟨wrong.1, by omega, by omega⟩⟩, fun here => here.1⟩
  · constructor
    · intro here
      exact Entry.noConfusion (empty.symm.trans here)
    · rintro ⟨here, other⟩
      obtain ⟨unit, long⟩ | ⟨last, _⟩ := found.taken least most
      · exact Entry.noConfusion (long.symm.trans here)
      · exact absurd ⟨rfl, last⟩ other

theorem Found.wiped_long {unit : Nat} (here : (wiped tree node).entry other i = .long unit) :
    tree.entry other i = .long unit := by
  obtain ⟨_, same⟩ | ⟨_, _, _, empty⟩ := wiped_cases tree found.order other i
  · exact same.symm.trans here
  · exact Entry.noConfusion (empty.symm.trans here)

theorem Found.wiped_last :
    (wiped tree node).entry other i = .last ↔ tree.entry other i = .last := by
  obtain ⟨_, same⟩ | ⟨rfl, least, most, empty⟩ := wiped_cases tree found.order other i
  · rw [same]
  · rw [empty]
    obtain ⟨unit, long⟩ | ⟨_, short⟩ := found.taken least most
    · rw [long]
      exact ⟨fun wrong => Entry.noConfusion wrong, fun wrong => Entry.noConfusion wrong⟩
    · rw [short]
      exact ⟨fun wrong => Entry.noConfusion wrong, fun wrong => Entry.noConfusion wrong⟩

end

/-- The deletion of a name leaves no gap. -/
theorem Shaped.wiped (shaped : Shaped vol tree) (found : Found tree node name directory cln) :
    Shaped vol (wiped tree node) := by
  have count : (Tree.wiped tree node).count = tree.count := Listing.put_count _ _ _ _
  constructor
  · intro other i beyond
    rw [count] at beyond
    exact found.wiped_last.mpr (shaped.beyond other i beyond)
  · intro other i j order here
    exact found.wiped_last.mpr (shaped.tail other i j order (found.wiped_last.mp here))
  · intro other
    rw [count]
    exact (shaped.full other).imp_right fun used wrong => used (found.wiped_last.mp wrong)

section

variable (found : Found tree node name directory cln)
include found

/-- The short entry of a name is not one of the first two of its directory. -/
theorem Found.proper (linked : Linked vol tree) : Proper vol node.dir node.idx := by
  by_cases root : node.dir = vol.rdirCl
  · exact .inl root
  · have opened : tree.count node.dir ≠ 0 := by
      have inside := found.inside
      omega
    have short := found.short
    obtain ⟨dot, dotdot⟩ := found.named
    refine .inr (Nat.not_lt.mp fun low => ?_)
    rcases (by omega : node.idx = 0 ∨ node.idx = 1) with zero | one
    · rw [zero, linked.first node.dir root opened] at short
      exact dot (Entry.short.inj short).1.symm
    · obtain ⟨_, _, _, second⟩ := linked.owned node.dir root opened
      rw [one, second] at short
      exact dotdot (Entry.short.inj short).1.symm

/-- The directories behind the deletion of a name. -/
theorem Found.wiped_holds {cln' : Nat} : Holds vol (wiped tree node) other i cln' ↔
      Holds vol tree other i cln' ∧ ¬ (other = node.dir ∧ i = node.idx) := by
  constructor
  · rintro ⟨proper, name', here⟩
    obtain ⟨old, outside⟩ := found.wiped_short.mp here
    exact ⟨⟨proper, name', old⟩, outside⟩
  · rintro ⟨⟨proper, name', here⟩, outside⟩
    exact ⟨proper, name', found.wiped_short.mpr ⟨here, outside⟩⟩

/-- The first two entries of a directory stay. -/
theorem Found.wiped_first (linked : Linked vol tree) (ne : other ≠ vol.rdirCl)
    (opened : tree.count other ≠ 0) (low : i < 2) :
    (wiped tree node).entry other i = tree.entry other i := by
  obtain ⟨name', cln', here⟩ := linked.first_two ne opened low
  rw [here]
  refine found.wiped_short.mpr ⟨here, ?_⟩
  rintro ⟨rfl, rfl⟩
  rcases found.proper linked with root | high
  · exact ne root
  · omega

end

theorem Linked.removed_file (linked : Linked vol tree) (found : Found tree node name false cln) :
    Linked vol (wiped tree node) := by
  have count : (wiped tree node).count = tree.count := Listing.put_count _ _ _ _
  have held : ∀ other i cln', Holds vol (wiped tree node) other i cln' ↔ Holds vol tree other i cln' := by
    intro other i cln'
    rw [found.wiped_holds]
    refine ⟨fun holds => holds.1, fun holds => ⟨holds, ?_⟩⟩
    rintro ⟨rfl, rfl⟩
    obtain ⟨_, name', here⟩ := holds
    cases found.short.symm.trans here
  refine linked.still (fun other => by rw [count]) ?_ ?_ ?_ ?_ ?_ ?_
  · intro other i ne opened low
    exact found.wiped_first linked ne opened low
  · intro other i name' directory' cln' proper here
    exact linked.plain other i name' directory' cln' proper (found.wiped_short.mp here).1
  · intro other i unit here
    rw [count]
    exact linked.clear other i unit (found.wiped_long here)
  · intro other i cln' holds
    exact ⟨i, (held other i cln').mp holds⟩
  · intro other i cln' holds
    exact ⟨i, (held other i cln').mpr holds⟩
  · intro other i i' cln' holds holds'
    exact (linked.once other i other i' cln' ((held _ _ _).mp holds) ((held _ _ _).mp holds')).2

theorem Linked.removed_directory (linked : Linked vol tree) (found : Found tree node name true cln)
    (empty : ∀ i cln', ¬ Holds vol tree cln i cln') : Linked vol ((wiped tree node).drop cln) := by
  have count : (wiped tree node).count = tree.count := Listing.put_count _ _ _ _
  have own : Holds vol tree node.dir node.idx cln := ⟨found.proper linked, name, found.short⟩
  obtain ⟨unrooted, _⟩ := linked.target _ _ _ own
  have counts : ∀ other, other ≠ cln → ((wiped tree node).drop cln).count other = tree.count other := by
    intro other ne
    rw [(Listing.drop_other ne).1, count]
  have fewer : ∀ other i cln', Holds vol ((wiped tree node).drop cln) other i cln' →
      other ≠ cln ∧ Holds vol tree other i cln' ∧ cln' ≠ cln := by
    rintro other i cln' ⟨proper, name', here⟩
    have ne : other ≠ cln := by
      rintro rfl
      rw [(Listing.drop_self _ _).2] at here
      cases here
    rw [(Listing.drop_other ne).2] at here
    obtain ⟨holds, outside⟩ := found.wiped_holds.mp ⟨proper, name', here⟩
    refine ⟨ne, holds, ?_⟩
    rintro rfl
    exact outside (linked.once _ _ _ _ _ holds own)
  have more : ∀ other i cln', Holds vol tree other i cln' → cln' ≠ cln →
      Holds vol ((wiped tree node).drop cln) other i cln' := by
    intro other i cln' holds ne
    have apart : other ≠ cln := by
      rintro rfl
      exact empty i cln' holds
    obtain ⟨proper, name', here⟩ := holds
    refine ⟨proper, name', ?_⟩
    rw [(Listing.drop_other apart).2]
    refine found.wiped_short.mpr ⟨here, ?_⟩
    rintro ⟨rfl, rfl⟩
    exact ne (Entry.short.inj (here.symm.trans found.short)).2.2
  have opened : ∀ other, ((wiped tree node).drop cln).count other ≠ 0 → other ≠ cln ∧ tree.count other ≠ 0 := by
    intro other some
    have ne : other ≠ cln := by
      rintro rfl
      exact some (Listing.drop_self _ _).1
    rw [counts other ne] at some
    exact ⟨ne, some⟩
  constructor
  case root =>
    rw [counts _ (Ne.symm unrooted)]
    exact linked.root
  case low => exact fun other some => linked.low other (opened other some).2
  case plain =>
    intro other i name' directory' cln' proper here
    by_cases same : other = cln
    · subst same
      rw [(Listing.drop_self _ _).2] at here
      cases here
    · rw [(Listing.drop_other same).2] at here
      exact linked.plain other i name' directory' cln' proper (found.wiped_short.mp here).1
  case target =>
    intro other i cln' holds
    obtain ⟨_, held, ne⟩ := fewer other i cln' holds
    rw [counts cln' ne]
    exact linked.target other i cln' held
  case once =>
    intro other i other' i' cln' holds holds'
    exact linked.once other i other' i' cln' (fewer _ _ _ holds).2.1 (fewer _ _ _ holds').2.1
  case first =>
    intro other ne some
    obtain ⟨apart, some⟩ := opened other some
    rw [(Listing.drop_other apart).2, found.wiped_first linked ne some (by decide)]
    exact linked.first other ne some
  case owned =>
    intro other ne some
    obtain ⟨apart, some⟩ := opened other some
    obtain ⟨above, i, held, second⟩ := linked.owned other ne some
    refine ⟨above, i, more above i other held apart, ?_⟩
    rw [(Listing.drop_other apart).2, found.wiped_first linked ne some (by decide)]
    exact second
  case clear =>
    intro other i unit here
    have old : tree.entry other i = .long unit := by
      by_cases same : other = cln
      · subst same
        rw [(Listing.drop_self _ _).2] at here
        cases here
      · rw [(Listing.drop_other same).2] at here
        exact found.wiped_long here
    by_cases same : unit * 2 ^ 16 = cln
    · exact .inl (same ▸ (Listing.drop_self _ _).1)
    · rw [counts _ same]
      exact linked.clear other i unit old
  case deep =>
    obtain ⟨depth, deeper⟩ := linked.deep
    exact ⟨depth, fun other i cln' holds => deeper other i cln' (fewer _ _ _ holds).2.1⟩

/-- A node is still found where a name is added. -/
theorem Added.found (added : Added vol before tree dir off units entry)
    (found : Found before node name directory cln) : Found tree node name directory cln := by
  constructor
  case order => exact found.order
  case inside =>
    have inside := found.inside
    by_cases same : node.dir = dir
    · have grown := added.grown
      rw [← same] at grown
      omega
    · rwa [added.count _ same]
  case short => exact added.keeps found.short
  case named => exact found.named
  case long =>
    intro i least most
    obtain ⟨unit, here⟩ := found.long i least most
    obtain ⟨_, same⟩ | ⟨same, free, _⟩ := added.cases node.dir i
    · exact ⟨unit, same.trans here⟩
    · rw [← same, here] at free
      rcases free with wrong | wrong <;> cases wrong

/-- A node gets another name: in its directory if it is a directory. -/
theorem Linked.renamed (linked : Linked vol before) (found : Found before node name directory cln) {newName : Name}
    (added : Added vol before tree dir off units (.short newName directory cln)) (opened : before.count dir ≠ 0)
    (named : newName ≠ dotName ∧ newName ≠ dotdotName)
    (clear : ∀ unit ∈ units, before.count (unit * 2 ^ 16) = 0 ∨ unit * 2 ^ 16 = vol.rdirCl)
    (same : directory = true → dir = node.dir) : Linked vol (wiped tree node) := by
  have found' := added.found found
  have count : (wiped tree node).count = tree.count := Listing.put_count _ _ _ _
  have proper := found.proper linked
  -- the short entries are the old ones without the old name, and the new one
  have cases : ∀ other i name' directory' cln',
      (wiped tree node).entry other i = .short name' directory' cln' →
      (before.entry other i = .short name' directory' cln' ∧ ¬ (other = node.dir ∧ i = node.idx)) ∨
        (other = dir ∧ i = off + units.length ∧ name' = newName ∧ directory' = directory ∧ cln' = cln) := by
    intro other i name' directory' cln' here
    obtain ⟨there, outside⟩ := found'.wiped_short.mp here
    obtain old | ⟨rfl, rfl, new⟩ := added.short_cases there
    · exact .inl ⟨old, outside⟩
    · obtain ⟨rfl, rfl, rfl⟩ := Entry.short.inj new
      exact .inr ⟨rfl, rfl, rfl, rfl, rfl⟩
  have apart : ¬ (dir = node.dir ∧ off + units.length = node.idx) := by
    rintro ⟨rfl, index⟩
    have free := added.free _ (Nat.le_add_right _ _) (Nat.le_refl _)
    rw [index, found.short] at free
    rcases free with wrong | wrong <;> cases wrong
  refine linked.still (fun other => by rw [count, added.count_zero opened]) ?_ ?_ ?_ ?_ ?_ ?_
  · intro other i ne some low
    obtain ⟨name', cln', here⟩ := linked.first_two ne some low
    rw [here]
    refine found'.wiped_short.mpr ⟨added.keeps here, ?_⟩
    rintro ⟨rfl, rfl⟩
    rcases proper with root | high
    · exact ne root
    · omega
  · intro other i name' directory' cln' there here
    obtain ⟨old, _⟩ | ⟨_, _, rfl, rfl, rfl⟩ := cases _ _ _ _ _ here
    · exact linked.plain other i _ _ _ there old
    · obtain ⟨_, _, file⟩ := linked.plain _ _ _ _ _ proper found.short
      exact ⟨named.1, named.2, file⟩
  · intro other i unit here
    rw [count, added.count_zero opened]
    obtain old | member := added.long_cases (fun _ => Entry.noConfusion) (found'.wiped_long here)
    · exact linked.clear other i unit old
    · exact clear unit member
  · rintro other i cln' ⟨there, name', here⟩
    obtain ⟨old, _⟩ | ⟨rfl, _, _, file, rfl⟩ := cases _ _ _ _ _ here
    · exact ⟨i, there, name', old⟩
    · rw [same file.symm]
      exact ⟨node.idx, proper, name, file ▸ found.short⟩
  · rintro other i cln' ⟨there, name', here⟩
    by_cases moved : other = node.dir ∧ i = node.idx
    · obtain ⟨rfl, rfl⟩ := moved
      obtain ⟨_, file, rfl⟩ := Entry.short.inj (here.symm.trans found.short)
      obtain rfl := same file.symm
      refine ⟨off + units.length, added.proper linked opened, newName, ?_⟩
      exact found'.wiped_short.mpr ⟨file ▸ added.short, apart⟩
    · exact ⟨i, there, name', found'.wiped_short.mpr ⟨added.keeps here, moved⟩⟩
  · rintro other i i' cln' ⟨there, name', here⟩ ⟨there', _, here'⟩
    have own : ∀ k, true = directory → Holds vol before other k cln → other = node.dir ∧ k = node.idx := by
      intro k file held
      exact linked.once _ _ _ _ _ held ⟨proper, name, file ▸ found.short⟩
    obtain ⟨old, outside⟩ | ⟨_, index, _, file, rfl⟩ := cases _ _ _ _ _ here
    · obtain ⟨old', outside'⟩ | ⟨_, _, _, file', rfl⟩ := cases _ _ _ _ _ here'
      · exact (linked.once other i other i' cln' ⟨there, _, old⟩ ⟨there', _, old'⟩).2
      · exact absurd (own i file' ⟨there, _, old⟩) outside
    · obtain ⟨old', outside'⟩ | ⟨_, index', _⟩ := cases _ _ _ _ _ here'
      · exact absurd (own i' file ⟨there', _, old'⟩) outside'
      · exact index.trans index'.symm

end Wiped

/-- The number of a directory in the entry for the parent. -/
theorem parentNum_eq (linear : Linear vol) : parentNum vol (fdOf vol dir) = dotdotNum vol dir := by
  by_cases root : dir = vol.rdirCl
  · subst root
    by_cases type : vol.type = .fat32
    · simp [parentNum, dotdotNum, fdOf, type]
    · simp [parentNum, dotdotNum, fdOf, linear.rdirCl type]
  · simp [parentNum, dotdotNum, fdOf, root]

section Planted

variable {fresh i : Nat} {name : Name}

/-- The entries behind the creation of a directory. -/
theorem planted_cases (tree : Listing) (ne : dir ≠ fresh) (short : tree.entry dir i = .short name true 0)
    (other k : Nat) :
    (other = dir ∧ k = i ∧ (planted vol tree dir i fresh).entry other k = .short name true fresh) ∨
      (other = fresh ∧ k = 0 ∧ (planted vol tree dir i fresh).entry other k = .short dotName true fresh) ∨
      (other = fresh ∧ k = 1 ∧ (planted vol tree dir i fresh).entry other k =
        .short dotdotName true (parentNum vol (fdOf vol dir))) ∨
      (¬ (other = dir ∧ k = i) ∧ ¬ (other = fresh ∧ k < 2) ∧
        (planted vol tree dir i fresh).entry other k = tree.entry other k) := by
  rw [planted, short]
  by_cases own : other = dir ∧ k = i
  · obtain ⟨rfl, rfl⟩ := own
    exact .inl ⟨rfl, rfl, Listing.set_self _ _ _ _⟩
  · rw [Listing.set_other _ _ own]
    by_cases second : other = fresh ∧ k = 1
    · obtain ⟨rfl, rfl⟩ := second
      exact .inr (.inr (.inl ⟨rfl, rfl, Listing.set_self _ _ _ _⟩))
    · rw [Listing.set_other _ _ second]
      by_cases first : other = fresh ∧ k = 0
      · obtain ⟨rfl, rfl⟩ := first
        exact .inr (.inl ⟨rfl, rfl, Listing.set_self _ _ _ _⟩)
      · rw [Listing.set_other _ _ first]
        exact .inr (.inr (.inr ⟨own, fun low => by omega, rfl⟩))

theorem planted_count (other : Nat) : (planted vol tree dir i fresh).count other =
    update tree.count fresh (perBlock vol fresh) other := rfl

/-- A new directory has its end marks at the end. -/
theorem Shaped.planted (linear : Linear vol) (shaped : Shaped vol tree) (ne : dir ≠ fresh)
    (short : tree.entry dir i = .short name true 0) (unused : tree.count fresh = 0) :
    Shaped vol (planted vol tree dir i fresh) := by
  have block := perBlock_least linear fresh
  have none : ∀ k, tree.entry fresh k = .last := fun k => shaped.beyond fresh k (unused ▸ Nat.zero_le k)
  have last : ∀ other k, (Tree.planted vol tree dir i fresh).entry other k = .last ↔
      tree.entry other k = .last ∧ ¬ (other = fresh ∧ k < 2) := by
    intro other k
    obtain ⟨rfl, rfl, here⟩ | ⟨rfl, rfl, here⟩ | ⟨rfl, rfl, here⟩ | ⟨_, outside, here⟩ :=
      @planted_cases vol dir fresh _ name tree ne short other k
    · rw [here, short]
      exact ⟨fun wrong => Entry.noConfusion wrong, fun wrong => Entry.noConfusion wrong.1⟩
    iterate 2
      · rw [here]
        exact ⟨fun wrong => Entry.noConfusion wrong, fun wrong => absurd ⟨rfl, by decide⟩ wrong.2⟩
    · rw [here]
      exact ⟨fun same => ⟨same, outside⟩, fun same => same.1⟩
  constructor
  · intro other k beyond
    rw [planted_count] at beyond
    rw [last]
    by_cases same : other = fresh
    · subst same
      rw [update_self] at beyond
      exact ⟨none k, fun wrong => by omega⟩
    · rw [update_of_ne same] at beyond
      exact ⟨shaped.beyond other k beyond, fun wrong => same wrong.1⟩
  · intro other k l order here
    obtain ⟨old, outside⟩ := (last other k).mp here
    exact (last other l).mpr ⟨shaped.tail other k l order old, fun wrong => outside ⟨wrong.1, by omega⟩⟩
  · intro other
    rw [planted_count]
    by_cases same : other = fresh
    · subst same
      rw [update_self]
      exact .inl (Nat.le_refl _)
    · rw [update_of_ne same]
      exact (shaped.full other).imp_right fun used wrong => used ((last _ _).mp wrong).1

theorem Linked.directory (linear : Linear vol) (linked : Linked vol before) (shaped : Shaped vol before)
    (added : Added vol before tree dir off units (.short name true 0)) (opened : before.count dir ≠ 0)
    (named : name ≠ dotName ∧ name ≠ dotdotName) (some : fresh ≠ 0) (apart : fresh ≠ vol.rdirCl)
    (unused : before.count fresh = 0)
    (clear : ∀ unit ∈ units, before.count (unit * 2 ^ 16) = 0 ∨ unit * 2 ^ 16 = vol.rdirCl)
    (unitsClear : ∀ unit ∈ units, unit * 2 ^ 16 ≠ fresh)
    (unread : ∀ other k unit, before.entry other k = .long unit → unit * 2 ^ 16 ≠ fresh) :
    Linked vol (planted vol tree dir (off + units.length) fresh) := by
  have ne : dir ≠ fresh := fun same => opened (same ▸ unused)
  have none : ∀ k, before.entry fresh k = .last := fun k => shaped.beyond fresh k (unused ▸ Nat.zero_le k)
  have proper := added.proper linked opened
  have counts : ∀ other, other ≠ fresh →
      ((planted vol tree dir (off + units.length) fresh).count other = 0 ↔ before.count other = 0) := by
    intro other same
    rw [planted_count, update_of_ne same, added.count_zero opened]
  have long : (planted vol tree dir (off + units.length) fresh).count fresh ≠ 0 := by
    have block := perBlock_least linear fresh
    rw [planted_count, update_self]
    omega
  have begun : ∀ other, (planted vol tree dir (off + units.length) fresh).count other ≠ 0 → other ≠ fresh →
      before.count other ≠ 0 := fun other some same none => some ((counts other same).mpr none)
  -- the short entries are the old ones, the new one and the two of the new directory
  have cases : ∀ other k name' directory cln, Proper vol other k →
      (planted vol tree dir (off + units.length) fresh).entry other k = .short name' directory cln →
      (other ≠ fresh ∧ before.entry other k = .short name' directory cln) ∨
        (other = dir ∧ k = off + units.length ∧ name' = name ∧ directory = true ∧ cln = fresh) := by
    intro other k name' directory cln there here
    obtain ⟨rfl, rfl, new⟩ | ⟨rfl, rfl, _⟩ | ⟨rfl, rfl, _⟩ | ⟨outside, _, same⟩ :=
      @planted_cases vol dir fresh _ name tree ne added.short other k
    · obtain ⟨rfl, rfl, rfl⟩ := Entry.short.inj (new.symm.trans here)
      exact .inr ⟨rfl, rfl, rfl, rfl, rfl⟩
    iterate 2
      · rcases there with root | high
        · exact absurd root apart
        · omega
    · obtain old | ⟨rfl, rfl, _⟩ := added.short_cases (same.symm.trans here)
      · refine .inl ⟨?_, old⟩
        rintro rfl
        rw [none k] at old
        cases old
      · exact absurd ⟨rfl, rfl⟩ outside
  have keeps : ∀ other k name' directory cln, before.entry other k = .short name' directory cln →
      (planted vol tree dir (off + units.length) fresh).entry other k = .short name' directory cln := by
    intro other k name' directory cln here
    obtain ⟨rfl, rfl, _⟩ | ⟨rfl, rfl, _⟩ | ⟨rfl, rfl, _⟩ | ⟨_, _, same⟩ :=
      @planted_cases vol dir fresh _ name tree ne added.short other k
    · have free := added.free _ (Nat.le_add_right _ _) (Nat.le_refl _)
      rw [here] at free
      rcases free with wrong | wrong <;> cases wrong
    · rw [none] at here
      cases here
    · rw [none] at here
      cases here
    · exact same.trans (added.keeps here)
  have heldCases : ∀ other k cln, Holds vol (planted vol tree dir (off + units.length) fresh) other k cln →
      (other ≠ fresh ∧ Holds vol before other k cln) ∨
        (other = dir ∧ k = off + units.length ∧ cln = fresh) := by
    rintro other k cln ⟨there, name', here⟩
    obtain ⟨same, old⟩ | ⟨rfl, rfl, _, _, rfl⟩ := cases _ _ _ _ _ there here
    · exact .inl ⟨same, there, name', old⟩
    · exact .inr ⟨rfl, rfl, rfl⟩
  have held : ∀ other k cln, Holds vol before other k cln →
      cln ≠ fresh ∧ Holds vol (planted vol tree dir (off + units.length) fresh) other k cln := by
    intro other k cln holds
    refine ⟨?_, ?_⟩
    · rintro rfl
      exact (linked.target _ _ _ holds).2 unused
    · obtain ⟨there, name', here⟩ := holds
      exact ⟨there, name', keeps _ _ _ _ _ here⟩
  have new : Holds vol (planted vol tree dir (off + units.length) fresh) dir (off + units.length) fresh := by
    refine ⟨proper, name, ?_⟩
    obtain ⟨_, _, here⟩ | ⟨same, _⟩ | ⟨same, _⟩ | ⟨outside, _⟩ :=
      @planted_cases vol dir fresh _ name tree ne added.short dir (off + units.length)
    · exact here
    · exact absurd same ne
    · exact absurd same ne
    · exact absurd ⟨rfl, rfl⟩ outside
  constructor
  case root => exact fun wrong => linked.root ((counts _ (Ne.symm apart)).mp wrong)
  case low =>
    intro other more unrooted
    by_cases same : other = fresh
    · exact same ▸ some
    · exact linked.low other (begun other more same) unrooted
  case plain =>
    intro other k name' directory cln there here
    obtain ⟨_, old⟩ | ⟨_, _, rfl, rfl, _⟩ := cases _ _ _ _ _ there here
    · exact linked.plain other k name' directory cln there old
    · exact ⟨named.1, named.2, fun wrong => Bool.noConfusion wrong⟩
  case target =>
    intro other k cln holds
    obtain ⟨_, old⟩ | ⟨_, _, rfl⟩ := heldCases _ _ _ holds
    · obtain ⟨unrooted, more⟩ := linked.target _ _ _ old
      exact ⟨unrooted, fun wrong => more ((counts cln (held _ _ _ old).1).mp wrong)⟩
    · exact ⟨apart, long⟩
  case once =>
    intro other k other' k' cln holds holds'
    obtain ⟨_, old⟩ | ⟨rfl, rfl, rfl⟩ := heldCases _ _ _ holds
    · obtain ⟨_, old'⟩ | ⟨_, _, rfl⟩ := heldCases _ _ _ holds'
      · exact linked.once _ _ _ _ _ old old'
      · exact absurd rfl (held _ _ _ old).1
    · obtain ⟨_, old'⟩ | ⟨rfl, rfl, _⟩ := heldCases _ _ _ holds'
      · exact absurd rfl (held _ _ _ old').1
      · exact ⟨rfl, rfl⟩
  case first =>
    intro other unrooted more
    by_cases same : other = fresh
    · subst same
      obtain ⟨wrong, _⟩ | ⟨_, _, here⟩ | ⟨_, wrong, _⟩ | ⟨_, wrong, _⟩ :=
        @planted_cases vol dir other _ name tree ne added.short other 0
      · exact absurd wrong.symm ne
      · exact here
      · cases wrong
      · exact absurd ⟨rfl, by decide⟩ wrong
    · exact keeps _ _ _ _ _ (linked.first other unrooted (begun other more same))
  case owned =>
    intro other unrooted more
    by_cases same : other = fresh
    · subst same
      refine ⟨dir, _, new, ?_⟩
      obtain ⟨wrong, _⟩ | ⟨_, wrong, _⟩ | ⟨_, _, here⟩ | ⟨_, wrong, _⟩ :=
        @planted_cases vol dir other _ name tree ne added.short other 1
      · exact absurd wrong.symm ne
      · cases wrong
      · rw [here, parentNum_eq linear]
      · exact absurd ⟨rfl, by decide⟩ wrong
    · obtain ⟨above, k, old, second⟩ := linked.owned other unrooted (begun other more same)
      exact ⟨above, k, (held _ _ _ old).2, keeps _ _ _ _ _ second⟩
  case clear =>
    intro other k unit here
    have apart : unit * 2 ^ 16 ≠ fresh ∧ (before.count (unit * 2 ^ 16) = 0 ∨ unit * 2 ^ 16 = vol.rdirCl) := by
      obtain ⟨_, _, new⟩ | ⟨_, _, new⟩ | ⟨_, _, new⟩ | ⟨_, _, same⟩ :=
        @planted_cases vol dir fresh _ name tree ne added.short other k
      iterate 3
        · exact Entry.noConfusion (new.symm.trans here)
      · obtain old | member := added.long_cases (fun _ => Entry.noConfusion) (same.symm.trans here)
        · exact ⟨unread _ _ _ old, linked.clear _ _ _ old⟩
        · exact ⟨unitsClear _ member, clear _ member⟩
    exact apart.2.imp_left (counts _ apart.1).mpr
  case deep =>
    obtain ⟨depth, deeper⟩ := linked.deep
    refine ⟨update depth fresh (depth dir + 1), fun other k cln holds => ?_⟩
    obtain ⟨same, old⟩ | ⟨rfl, _, rfl⟩ := heldCases _ _ _ holds
    · rw [update_of_ne same, update_of_ne (held _ _ _ old).1]
      exact deeper _ _ _ old
    · rw [update_of_ne ne, update_self]
      exact Nat.lt_succ_self _

end Planted

/-- A directory without entries has its end marks at the end. -/
theorem Shaped.drop (shaped : Shaped vol tree) (cln : Nat) : Shaped vol (tree.drop cln) := by
  obtain ⟨none, last⟩ := Listing.drop_self tree cln
  constructor
  · intro other i beyond
    by_cases same : other = cln
    · rw [same, last]
    · rw [(Listing.drop_other same).1] at beyond
      rw [(Listing.drop_other same).2]
      exact shaped.beyond other i beyond
  · intro other i j order here
    by_cases same : other = cln
    · rw [same, last]
    · rw [(Listing.drop_other same).2] at here ⊢
      exact shaped.tail other i j order here
  · intro other
    by_cases same : other = cln
    · rw [same, none]
      exact .inl (Nat.zero_le _)
    · rw [(Listing.drop_other same).1, (Listing.drop_other same).2]
      exact shaped.full other

end Rtems.Dosfs.Tree
