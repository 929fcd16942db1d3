import Rtems.Dosfs.DirLinks
import Rtems.Library.Transition

/-!
# The parents of directories

An operation is careful if no directory moves to another directory, if the entries that are written to the root
directory of FAT12 and FAT16 land in it, and if no part of a long name reads as the cluster of a directory. In every run
of careful operations each directory knows its parent.
-/

namespace Rtems.Dosfs.Tree

open Transition

/-- A name that can be created. -/
def Named (name : Name) : Prop := name ≠ dotName ∧ name ≠ dotdotName
deriving Decidable

/-- A short entry that is not one of the first two. -/
def Entry.isNode : Entry → Bool
  | short name _ _ => decide (Named name)
  | _ => false

def Entry.isLong : Entry → Bool
  | long _ => true
  | _ => false

def Entry.isDirectory : Entry → Bool
  | short _ directory _ => directory
  | _ => false

/-- A directory that is there. -/
def Opened (vol : Volume) (disk : Disk) (dir : Nat) : Prop := size vol disk (fdOf vol dir) ≠ 0
deriving Decidable

/-- A node as a lookup finds it. -/
def IsNode (vol : Volume) (disk : Disk) (node : Node) : Prop :=
  node.first ≤ node.idx ∧ node.idx < size vol disk (fdOf vol node.dir) ∧
    (entryAt vol disk (fdOf vol node.dir) node.idx).isNode = true ∧
    ∀ i < node.idx, node.first ≤ i → (entryAt vol disk (fdOf vol node.dir) i).isLong = true

instance (vol : Volume) (disk : Disk) (node : Node) : Decidable (IsNode vol disk node) :=
  inferInstanceAs (Decidable (_ ∧ _))

/-- What an operation is called for: directories that are there, names that can be created and nodes that are found. -/
def Called (vol : Volume) (disk : Disk) : Op → Prop
  | .mknod parent name _ _ => Opened vol disk parent ∧ Named name
  | .mkdir parent name _ _ _ => Opened vol disk parent ∧ Named name
  | .rmnod node => IsNode vol disk node
  | .rename node parent name _ _ => IsNode vol disk node ∧ Opened vol disk parent ∧ Named name

instance (vol : Volume) (disk : Disk) (op : Op) : Decidable (Called vol disk op) :=
  match op with
  | .mknod .. => inferInstanceAs (Decidable (_ ∧ _))
  | .mkdir .. => inferInstanceAs (Decidable (_ ∧ _))
  | .rmnod _ => inferInstanceAs (Decidable (IsNode _ _ _))
  | .rename .. => inferInstanceAs (Decidable (_ ∧ _))

/-- The entries of a new name land in the directory, and no part of it reads as the cluster of a directory. -/
def Fits (vol : Volume) (disk : Disk) (parent : Nat) (units : List Nat) : Prop :=
  Lands vol (fdOf vol parent) (emptyOffset vol disk (fdOf vol parent) (units.length + 1)) ∧
    ∀ unit ∈ units, size vol disk (fdOf vol (unit * 2 ^ 16)) = 0 ∨ unit * 2 ^ 16 = vol.rdirCl
deriving Decidable

/-- The position of a new directory is that of its short entry, and no part of a long name reads as its cluster. -/
def Unread (vol : Volume) (disk : Disk) (parent : Nat) (units : List Nat) (fresh : Nat) : Prop :=
  Kept vol (fdOf vol parent) (emptyOffset vol disk (fdOf vol parent) (units.length + 1) + units.length) ∧
    (∀ unit ∈ units, unit * 2 ^ 16 ≠ fresh) ∧
    ∀ dir < vol.dataCls + 2, ∀ i < size vol disk (fdOf vol dir),
      (entryAt vol disk (fdOf vol dir) i).isLong = true → (entryAt vol disk (fdOf vol dir) i).clusterNum ≠ fresh

instance (vol : Volume) (disk : Disk) (parent : Nat) (units : List Nat) (fresh : Nat) :
    Decidable (Unread vol disk parent units fresh) :=
  inferInstanceAs (Decidable (_ ∧ _))

/-- An operation that keeps the parents of directories. -/
def Careful (vol : Volume) (disk : Disk) : Op → Prop
  | .mknod parent name units grown => Called vol disk (.mknod parent name units grown) ∧ Fits vol disk parent units
  | .mkdir parent name units grown fresh =>
    Called vol disk (.mkdir parent name units grown fresh) ∧ Fits vol disk parent units ∧
      Unread vol disk parent units fresh
  | .rmnod node => Called vol disk (.rmnod node)
  | .rename node parent name units grown =>
    Called vol disk (.rename node parent name units grown) ∧ Fits vol disk parent units ∧
      ((entryAt vol disk (fdOf vol node.dir) node.idx).isDirectory = true → parent = node.dir)

instance (vol : Volume) (disk : Disk) (op : Op) : Decidable (Careful vol disk op) :=
  match op with
  | .mknod .. => inferInstanceAs (Decidable (_ ∧ _))
  | .mkdir .. => inferInstanceAs (Decidable (_ ∧ _))
  | .rmnod node => inferInstanceAs (Decidable (Called vol disk (.rmnod node)))
  | .rename .. => inferInstanceAs (Decidable (_ ∧ _))

/-- An empty volume: the root directory of FAT32 has one cluster, no other cluster is in use, and the root directory
has no entries. -/
structure Initial (vol : Volume) (disk : Disk) : Prop extends Linear vol where
  chain : ∀ cln, disk.chain cln = if vol.type = .fat32 ∧ cln = vol.rdirCl then [cln] else []
  empty : ∀ i < size vol disk (fdOf vol vol.rdirCl), entryAt vol disk (fdOf vol vol.rdirCl) i = .last

/-- What holds in every careful run. -/
structure Sound (vol : Volume) (disk : Disk) : Prop where
  chained : Chained vol disk
  shaped : Shaped vol (view vol disk)
  linked : Linked vol (view vol disk)

/-- A directory has an entry for another one, which is not one of its first two entries. -/
def Contains (vol : Volume) (disk : Disk) (dir i cln : Nat) : Prop :=
  i < size vol disk (fdOf vol dir) ∧ Proper vol dir i ∧
    ∃ name, entryAt vol disk (fdOf vol dir) i = .short name true cln

/-- A directory knows its parent: the first entry has its own cluster, the second one has the cluster of the directory
with its entry, and the lookup of the parent gives the position of the entry of that directory. -/
structure KnowsParent (vol : Volume) (disk : Disk) (dir : Nat) : Prop where
  own : entryAt vol disk (fdOf vol dir) 0 = .short dotName true dir
  contained : ∃ above i, Contains vol disk above i dir
  parent : ∀ above i, Contains vol disk above i dir →
    entryAt vol disk (fdOf vol dir) 1 = .short dotdotName true (dotdotNum vol above)
  underRoot : ∀ i, Contains vol disk vol.rdirCl i dir → getDotdotNode vol disk (fdOf vol dir) = some rootPos
  lookup : ∀ above i top k, Contains vol disk above i dir → Contains vol disk top k above →
    getDotdotNode vol disk (fdOf vol dir) = some (place vol disk (fdOf vol top) k)

variable {vol : Volume} {disk next : Disk} {dir : Nat}

variable {i cln : Nat}

theorem contains_iff : Contains vol disk dir i cln ↔ Holds vol (view vol disk) dir i cln := by
  constructor
  · rintro ⟨inside, proper, name, here⟩
    exact ⟨proper, name, (view_entry inside).trans here⟩
  · rintro ⟨proper, name, here⟩
    have inside : i < size vol disk (fdOf vol dir) := by
      by_contra beyond
      rw [view_beyond (Nat.not_lt.mp beyond)] at here
      cases here
    exact ⟨inside, proper, name, (view_entry inside).symm.trans here⟩

variable {node : Node}

/-- A node that a lookup finds. -/
theorem IsNode.found (isNode : IsNode vol disk node) :
    ∃ name dir cln, Found (view vol disk) node name dir cln ∧
      entryAt vol disk (fdOf vol node.dir) node.idx = .short name dir cln := by
  obtain ⟨order, inside, short, long⟩ := isNode
  cases here : entryAt vol disk (fdOf vol node.dir) node.idx with
  | short name dir cln =>
    rw [here] at short
    refine ⟨name, dir, cln, ⟨order, inside, (view_entry inside).trans here, of_decide_eq_true short, ?_⟩, rfl⟩
    intro i least most
    have part := long i most least
    rw [view_entry (by omega)]
    cases entry : entryAt vol disk (fdOf vol node.dir) i with
    | long unit => exact ⟨unit, rfl⟩
    | last | empty | short =>
      rw [entry] at part
      cases part
  | last | empty | long =>
    rw [here] at short
    cases short

variable {name : Name} {units : List Nat} {grown : Nat}

section

variable (linear : Linear vol) (sound : Sound vol disk)
include linear sound

/-- The creation of a file. -/
theorem Sound.mknod (careful : Careful vol disk (.mknod dir name units grown))
    (taken : step vol disk (.mknod dir name units grown) = some next) : Sound vol next := by
  obtain ⟨⟨opened, named⟩, lands, clear⟩ := careful
  rw [step, creatNode, shortNode] at taken
  dsimp only at taken
  split at taken
  · cases taken
  · rename_i pos middle added
    cases taken
    obtain ⟨chained, added, _⟩ := addFile_spec linear sound.chained sound.shaped opened lands added
    exact ⟨chained, added.shaped sound.shaped Entry.noConfusion,
      sound.linked.file added opened ⟨named.1, named.2, fun _ => rfl⟩ clear⟩

/-- The creation of a directory. -/
theorem Sound.mkdir {fresh : Nat} (careful : Careful vol disk (.mkdir dir name units grown fresh))
    (taken : step vol disk (.mkdir dir name units grown fresh) = some next) : Sound vol next := by
  obtain ⟨⟨opened, named⟩, ⟨lands, clear⟩, kept, unitsClear, unread⟩ := careful
  rw [step, creatNode, shortNode] at taken
  dsimp only at taken
  split at taken
  · cases taken
  · rename_i pos middle added
    obtain ⟨chained, added, place⟩ := addFile_spec linear sound.chained sound.shaped opened lands added
    have shaped := added.shaped sound.shaped Entry.noConfusion
    have inside := added.inside
    rw [place, kept.pos linear inside] at taken
    have rooted : vol.type = .fat32 → middle.chain vol.rdirCl ≠ [] := by
      intro type none
      have unfixed : ¬ (fdOf vol vol.rdirCl).fixed vol = true := fun fixed => (fdOf_fixed.mp fixed).2 type
      have zero : (view vol middle).count vol.rdirCl = 0 := by
        rw [count_unfixed linear unfixed, none, List.length_nil, Nat.zero_mul]
      exact sound.linked.root ((added.count_zero opened vol.rdirCl).mp zero)
    obtain ⟨chained', least, apart, none, planted⟩ := makeDirectory_spec linear chained inside rooted taken
    have unused := (added.count_zero opened fresh).mp none
    have ne : dir ≠ fresh := by
      rintro rfl
      exact opened unused
    refine ⟨chained', ?_, ?_⟩
    · rw [planted]
      exact shaped.planted linear ne added.short none
    · rw [planted]
      refine sound.linked.directory linear sound.shaped added opened named (by omega) apart unused clear unitsClear ?_
      intro other k unit here
      have within : k < size vol disk (fdOf vol other) := by
        by_contra beyond
        rw [view_beyond (Nat.not_lt.mp beyond)] at here
        cases here
      have small : other < vol.dataCls + 2 := by
        by_cases fixed : (fdOf vol other).fixed vol = true
        · obtain ⟨same, type⟩ := fdOf_fixed.mp fixed
          rw [same, linear.rdirCl type]
          omega
        · have chain : disk.chain other ≠ [] := by
            intro empty
            have count := @count_unfixed vol disk other linear fixed
            rw [empty, List.length_nil, Nat.zero_mul] at count
            change size vol disk (fdOf vol other) = 0 at count
            omega
          exact (sound.chained.range other other (List.mem_of_head? (sound.chained.head other chain))).2
      rw [view_entry within] at here
      have ne := unread other small k within
      rw [here] at ne
      exact ne rfl

/-- The deletion of a node. -/
theorem Sound.setFirstChar
    {dir : Bool} (found : Found (view vol disk) node name dir cln) :
    Chained vol (setFirstChar vol disk node) ∧ view vol (setFirstChar vol disk node) = wiped (view vol disk) node ∧
      Shaped vol (view vol (setFirstChar vol disk node)) := by
  obtain ⟨chained, deleted⟩ := setFirstChar_spec linear sound.chained found.order found.inside
  exact ⟨chained, deleted, deleted ▸ sound.shaped.wiped found⟩

end

variable {k : Nat}

variable {entry : Nat → Entry}

/-- A directory that was found empty has no entry of a directory. -/
theorem dirIsEmpty_none {left : Nat} (none : dirIsEmpty entry left i = true)
    (tail : ∀ j k, j ≤ k → k < i + left → entry j = .last → entry k = .last) (least : i ≤ k)
    (most : k < i + left) {dir : Bool} (here : entry k = .short name dir cln) :
    ¬ Named name := by
  induction left generalizing i with
  | zero => omega
  | succ left ih =>
    have rest : dirIsEmpty entry left (i + 1) = true → i ≠ k → ¬ Named name := fun none ne =>
      ih none (fun j k order bound => tail j k order (by omega)) (by omega) (by omega)
    rw [dirIsEmpty] at none
    cases first : entry i with
    | last =>
      have last := tail i k least most first
      exact Entry.noConfusion (last.symm.trans here)
    | empty | long =>
      rw [first] at none
      exact rest none fun same => Entry.noConfusion (first.symm.trans (same ▸ here))
    | short name' directory' cln' =>
      rw [first] at none
      dsimp only at none
      by_cases dots : name' = dotName ∨ name' = dotdotName
      · rw [if_pos dots] at none
        by_cases same : i = k
        · subst same
          obtain ⟨rfl, _⟩ := Entry.short.inj (first.symm.trans here)
          rintro ⟨dot, dotdot⟩
          exact dots.elim dot dotdot
        · exact rest none same
      · rw [if_neg dots] at none
        cases none

/-- The removal of a node. -/
theorem Sound.rmnod (linear : Linear vol) (sound : Sound vol disk) (isNode : IsNode vol disk node)
    (taken : step vol disk (.rmnod node) = some next) : Sound vol next := by
  obtain ⟨name, dir, cln, found, here⟩ := isNode.found
  obtain ⟨chained, deleted, shaped⟩ := sound.setFirstChar linear found
  rw [step, Tree.rmnod, here] at taken
  dsimp only at taken
  split at taken
  · cases taken
  · rename_i empty
    cases taken
    have proper := found.proper sound.linked
    cases dir with
    | false =>
      -- a file has no clusters
      obtain ⟨_, _, zero⟩ := sound.linked.plain _ _ _ _ _ proper found.short
      obtain rfl := zero rfl
      have none : (Tree.setFirstChar vol disk node).chain 0 = [] := by
        by_contra some
        exact absurd (chained.range 0 0 (List.mem_of_head? (chained.head 0 some))).1 (by decide)
      rw [release_none none]
      exact ⟨chained, shaped, deleted ▸ sound.linked.removed_file found⟩
    | true =>
      obtain ⟨unrooted, _⟩ := sound.linked.target _ _ _ ⟨proper, name, found.short⟩
      have unfixed : ¬ (fdOf vol cln).fixed vol = true := fun fixed => unrooted (fdOf_fixed.mp fixed).1
      have same : (⟨cln, false⟩ : DirFd) = fdOf vol cln := by rw [fdOf, decide_eq_false unrooted]
      rw [same] at empty
      have cleared : dirIsEmpty (entryAt vol disk (fdOf vol cln)) (size vol disk (fdOf vol cln)) 0 = true := by
        by_contra some
        exact empty ⟨rfl, Bool.not_eq_true _ ▸ some⟩
      have entryless : ∀ i cln', ¬ Holds vol (view vol disk) cln i cln' := by
        rintro i cln' holds
        obtain ⟨inside, there, name', entry⟩ := contains_iff.mpr holds
        refine dirIsEmpty_none cleared ?_ (Nat.zero_le i) (by omega) entry ?_
        · intro j k order bound last
          rw [Nat.zero_add] at bound
          rw [← view_entry (by omega)] at last
          rw [← view_entry bound]
          exact sound.shaped.tail cln j k order last
        · obtain ⟨dot, dotdot, _⟩ := sound.linked.plain cln i name' true cln' there ((view_entry inside).trans entry)
          exact ⟨dot, dotdot⟩
      have dropped := @view_release vol (Tree.setFirstChar vol disk node) cln unfixed
      refine ⟨chained.release cln, ?_, ?_⟩
      · rw [dropped]
        exact shaped.drop cln
      · rw [dropped, deleted]
        exact sound.linked.removed_directory found entryless

/-- The entry of a node is the one that a rename copies. -/
theorem Sound.rename (linear : Linear vol) (sound : Sound vol disk)
    (careful : Careful vol disk (.rename node dir name units grown))
    (taken : step vol disk (.rename node dir name units grown) = some next) : Sound vol next := by
  obtain ⟨⟨isNode, opened, named⟩, ⟨lands, clear⟩, stays⟩ := careful
  obtain ⟨old, directory, cln, found, here⟩ := isNode.found
  obtain ⟨middle, created, rfl⟩ := Option.map_eq_some_iff.mp taken
  have link : disk.entries (address vol (place vol disk (fdOf vol node.dir) node.idx)) = .short old directory cln :=
    here
  rw [creatNode, shortNode, link] at created
  dsimp only at created
  split at created
  · cases created
  · rename_i pos disk' added
    cases created
    obtain ⟨chained, added, _⟩ := addFile_spec linear sound.chained sound.shaped opened lands added
    have shaped := added.shaped sound.shaped Entry.noConfusion
    have found' := added.found found
    obtain ⟨chained', deleted⟩ := setFirstChar_spec linear chained found'.order found'.inside
    refine ⟨chained', ?_, ?_⟩
    · rw [deleted]
      exact shaped.wiped found'
    · rw [deleted]
      refine sound.linked.renamed found added opened named clear fun same => stays ?_
      rw [here, same]
      rfl

/-- A careful operation keeps the links. -/
theorem Sound.step (linear : Linear vol) (sound : Sound vol disk) {op : Op} (careful : Careful vol disk op)
    (taken : step vol disk op = some next) : Sound vol next := by
  cases op with
  | mknod parent name units grown => exact sound.mknod linear careful taken
  | mkdir parent name units grown fresh => exact sound.mkdir linear careful taken
  | rmnod node => exact sound.rmnod linear careful taken
  | rename node parent name units grown => exact sound.rename linear careful taken

/-- The state of an empty volume. -/
theorem Initial.sound (initial : Initial vol disk) : Sound vol disk := by
  have linear := initial.toLinear
  have chains : ∀ cln x, x ∈ disk.chain cln → vol.type = .fat32 ∧ cln = vol.rdirCl ∧ x = cln := by
    intro cln x member
    rw [initial.chain] at member
    by_cases root : vol.type = .fat32 ∧ cln = vol.rdirCl
    · rw [if_pos root] at member
      exact ⟨root.1, root.2, List.mem_singleton.mp member⟩
    · rw [if_neg root] at member
      cases member
  have chained : Chained vol disk := by
    constructor
    · intro cln some
      obtain ⟨x, member⟩ := List.exists_mem_of_ne_nil _ some
      obtain ⟨type, root, _⟩ := chains cln x member
      rw [initial.chain, if_pos ⟨type, root⟩]
      rfl
    · intro cln x member
      obtain ⟨type, root, same⟩ := chains cln x member
      rw [same, root]
      exact linear.rootCluster type
    · intro cln cln' x member member'
      rw [← (chains cln x member).2.2, (chains cln' x member').2.2]
    · intro cln
      rw [initial.chain]
      split
      · exact List.pairwise_singleton _ _
      · exact List.nodup_nil
  have others : ∀ dir, dir ≠ vol.rdirCl → (view vol disk).count dir = 0 := by
    intro dir ne
    have unfixed : ¬ (fdOf vol dir).fixed vol = true := fun fixed => ne (fdOf_fixed.mp fixed).1
    have none : disk.chain dir = [] := by rw [initial.chain, if_neg fun root => ne root.2]
    rw [count_unfixed linear unfixed, none, List.length_nil, Nat.zero_mul]
  have single : (clusters vol disk (fdOf vol vol.rdirCl)).length = 1 := by
    by_cases fixed : (fdOf vol vol.rdirCl).fixed vol = true
    · rw [(clusters_fixed fixed).1]
      rfl
    · have type : vol.type = .fat32 := by
        by_contra other
        exact fixed (fdOf_fixed.mpr ⟨rfl, other⟩)
      rw [(clusters_chain fixed).1, initial.chain, if_pos ⟨type, rfl⟩]
      rfl
  have root : (view vol disk).count vol.rdirCl = perBlock vol vol.rdirCl := by
    have whole := @size_eq vol disk vol.rdirCl linear
    rwa [single, Nat.one_mul] at whole
  have none : ∀ dir i, (view vol disk).entry dir i = .last := by
    intro dir i
    by_cases inside : i < size vol disk (fdOf vol dir)
    · rw [view_entry inside]
      by_cases same : dir = vol.rdirCl
      · subst same
        exact initial.empty i inside
      · have zero := others dir same
        change size vol disk (fdOf vol dir) = 0 at zero
        omega
    · exact view_beyond (Nat.not_lt.mp inside)
  have unheld : ∀ dir i cln, ¬ Holds vol (view vol disk) dir i cln := by
    rintro dir i cln ⟨_, name, here⟩
    rw [none] at here
    cases here
  refine ⟨chained, ⟨fun dir i _ => none dir i, fun dir i j _ _ => none dir j, fun dir => ?_⟩, ?_⟩
  · by_cases same : dir = vol.rdirCl
    · subst same
      exact .inl root.le
    · rw [others dir same]
      exact .inl (Nat.zero_le _)
  · constructor
    case root =>
      have block := perBlock_least linear vol.rdirCl
      omega
    case low => exact fun dir some ne => absurd (others dir ne) some
    case plain =>
      intro dir i name directory cln _ here
      rw [none] at here
      cases here
    case target => exact fun dir i cln holds => absurd holds (unheld dir i cln)
    case once => exact fun dir i _ _ cln holds => absurd holds (unheld dir i cln)
    case first => exact fun dir ne some => absurd (others dir ne) some
    case owned => exact fun dir ne some => absurd (others dir ne) some
    case clear =>
      intro dir i unit here
      rw [none] at here
      cases here
    case deep => exact ⟨fun _ => 0, fun dir i cln holds => absurd holds (unheld dir i cln)⟩

/-- A search finds the first entry that is wanted. -/
theorem search_eq {wanted : Entry → Bool} {left : Nat} (least : i ≤ k) (most : k < i + left)
    (earlier : ∀ j, i ≤ j → j < k → entry j ≠ .last ∧ (entry j ≠ .empty → wanted (entry j) = false))
    (here : entry k ≠ .last ∧ entry k ≠ .empty ∧ wanted (entry k) = true) :
    search wanted entry left i = some k := by
  induction left generalizing i with
  | zero => omega
  | succ left ih =>
    have next : i ≠ k → search wanted entry left (i + 1) = some k := fun ne =>
      ih (by omega) (by omega) fun j above below => earlier j (by omega) below
    have taken : entry i ≠ .last → entry i ≠ .empty →
        (if wanted (entry i) = true then some i else search wanted entry left (i + 1)) = some k := by
      intro _ some
      by_cases same : i = k
      · subst same
        rw [if_pos here.2.2]
      · rw [if_neg (Bool.eq_false_iff.mp ((earlier i (Nat.le_refl i) (by omega)).2 some)), next same]
    rw [search]
    cases first : entry i with
    | last =>
      by_cases same : i = k
      · exact absurd (same ▸ first) here.1
      · exact absurd first (earlier i (Nat.le_refl i) (by omega)).1
    | empty =>
      by_cases same : i = k
      · exact absurd (same ▸ first) here.2.1
      · exact next same
    | long | short =>
      rw [first] at taken
      exact taken Entry.noConfusion Entry.noConfusion

section Lookup

variable (linear : Linear vol) (sound : Sound vol disk)
include linear sound

/-- The first two entries of a directory are found by their names. -/
theorem Sound.first_two (ne : dir ≠ vol.rdirCl) (opened : Opened vol disk dir) :
    findNameInFatFile vol disk (fdOf vol dir) dotName = some 0 ∧
      findNameInFatFile vol disk (fdOf vol dir) dotdotName = some 1 ∧
      entryAt vol disk (fdOf vol dir) 0 = .short dotName true dir ∧
      ∃ above i, Holds vol (view vol disk) above i dir ∧
        entryAt vol disk (fdOf vol dir) 1 = .short dotdotName true (dotdotNum vol above) := by
  have long : 2 ≤ size vol disk (fdOf vol dir) := by
    have whole := @size_eq vol disk dir linear
    have block := perBlock_least linear dir
    cases blocks : (clusters vol disk (fdOf vol dir)).length with
    | zero =>
      rw [blocks, Nat.zero_mul] at whole
      exact absurd whole opened
    | succ blocks' =>
      rw [blocks, Nat.succ_mul] at whole
      omega
  have first := sound.linked.first dir ne opened
  obtain ⟨above, i, holds, second⟩ := sound.linked.owned dir ne opened
  rw [view_entry (by omega)] at first second
  refine ⟨search_eq (Nat.le_refl 0) (by omega) (fun j _ before => by omega) ?_,
    search_eq (Nat.zero_le 1) (by omega) (fun j _ before => ?_) ?_, first, above, i, holds, second⟩
  · rw [first]
    exact ⟨Entry.noConfusion, Entry.noConfusion, by simp [named]⟩
  · obtain rfl : j = 0 := by omega
    rw [first]
    exact ⟨Entry.noConfusion, fun _ => by simp [named, dotName, dotdotName]⟩
  · rw [second]
    exact ⟨Entry.noConfusion, Entry.noConfusion, by simp [named]⟩

/-- The entry of a directory is found by its cluster number. -/
theorem Sound.find_cluster (holds : Holds vol (view vol disk) dir k cln) :
    findNodeByClusterNum vol disk (fdOf vol dir) cln = some (place vol disk (fdOf vol dir) k) := by
  obtain ⟨inside, _, name, here⟩ := contains_iff.mpr holds
  obtain ⟨unrooted, opened⟩ := sound.linked.target _ _ _ holds
  obtain ⟨depth, deeper⟩ := sound.linked.deep
  have below := deeper _ _ _ holds
  rw [findNodeByClusterNum]
  have found : search (fun entry => decide (entry.clusterNum = cln)) (entryAt vol disk (fdOf vol dir))
      (size vol disk (fdOf vol dir)) 0 = some k := by
    refine search_eq (Nat.zero_le k) (by omega) (fun j _ before => ⟨?_, fun _ => decide_eq_false ?_⟩) ?_
    · intro last
      have tail := sound.shaped.tail dir j k before.le (by rw [view_entry (by omega), last])
      rw [view_entry inside, here] at tail
      cases tail
    · -- no earlier entry has the cluster number
      intro equal
      have entry : (view vol disk).entry dir j = entryAt vol disk (fdOf vol dir) j := view_entry (by omega)
      cases there : entryAt vol disk (fdOf vol dir) j with
      | last | empty =>
        rw [there] at equal
        exact sound.linked.low cln opened unrooted equal.symm
      | long unit =>
        rw [there] at equal
        obtain none | root := sound.linked.clear dir j unit (entry.trans there)
        · exact opened (equal ▸ none)
        · exact unrooted (equal.symm.trans root)
      | short name' directory cln' =>
        rw [there] at equal
        obtain rfl : cln' = cln := equal
        by_cases proper : Proper vol dir j
        · cases directory with
          | true =>
            have same := (sound.linked.once _ _ _ _ _ holds ⟨proper, name', entry.trans there⟩).2
            omega
          | false =>
            obtain ⟨_, _, zero⟩ := sound.linked.plain _ _ _ _ _ proper (entry.trans there)
            exact sound.linked.low cln' opened unrooted (zero rfl)
        · have ne : dir ≠ vol.rdirCl := fun same => proper (.inl same)
          have low : j < 2 := Nat.not_le.mp fun high => proper (.inr high)
          have inhabited : Opened vol disk dir := by
            rw [Opened]
            omega
          obtain ⟨_, _, first, above, i, held, second⟩ := sound.first_two linear ne inhabited
          rcases (by omega : j = 0 ∨ j = 1) with rfl | rfl
          · obtain ⟨_, _, rfl⟩ := Entry.short.inj (there.symm.trans first)
            omega
          · obtain ⟨_, _, same⟩ := Entry.short.inj (there.symm.trans second)
            have higher := deeper _ _ _ held
            rw [dotdotNum] at same
            split at same
            · exact sound.linked.low cln' opened unrooted same
            · rw [same] at below
              omega
    · rw [here]
      exact ⟨Entry.noConfusion, Entry.noConfusion, decide_eq_true rfl⟩
  rw [found]
  rfl

theorem Sound.knowsParent (ne : dir ≠ vol.rdirCl) (opened : Opened vol disk dir) :
    KnowsParent vol disk dir := by
  obtain ⟨_, named, first, above, i, holds, second⟩ := sound.first_two linear ne opened
  have unrooted : ∀ other, other ≠ vol.rdirCl → (⟨other, false⟩ : DirFd) = fdOf vol other := by
    intro other apart
    rw [fdOf, decide_eq_false apart]
  have unique : ∀ above' i', Contains vol disk above' i' dir → above' = above := fun above' i' contained =>
    (sound.linked.once _ _ _ _ _ (contains_iff.mp contained) holds).1
  have start : getDotdotNode vol disk (fdOf vol dir) =
      if dotdotNum vol above = 0 then some rootPos else getDotdotDirInfo vol disk (dotdotNum vol above) := by
    rw [getDotdotNode, named]
    dsimp only
    rw [second]
    rfl
  constructor
  case own => exact first
  case contained => exact ⟨above, i, contains_iff.mpr holds⟩
  case parent =>
    intro above' i' contained
    rw [unique above' i' contained]
    exact second
  case underRoot =>
    intro i' contained
    rw [start, ← unique _ i' contained, dotdotNum, if_pos rfl, if_pos rfl]
  case lookup =>
    intro above' i' top k contained contained'
    obtain rfl := unique above' i' contained
    have held := contains_iff.mp contained'
    obtain ⟨apart, there⟩ := sound.linked.target _ _ _ held
    have some := sound.linked.low above' there apart
    obtain ⟨dot, dotdot, own, top', k', held', upper⟩ := sound.first_two linear apart there
    obtain ⟨rfl, rfl⟩ := sound.linked.once _ _ _ _ _ held held'
    have number : dotdotNum vol above' = above' := if_neg apart
    rw [start, number, if_neg some, getDotdotDirInfo, unrooted above' apart]
    rw [dot, dotdot]
    dsimp only
    rw [own, upper]
    change (if dotdotNum vol top = 0 then findNodeByClusterNum vol disk ⟨vol.rdirCl, true⟩ above'
      else findNodeByClusterNum vol disk ⟨dotdotNum vol top, false⟩ above') = _
    by_cases root : top = vol.rdirCl
    · have fd : (⟨vol.rdirCl, true⟩ : DirFd) = fdOf vol top := by
        rw [fdOf, decide_eq_true root, root]
      rw [dotdotNum, if_pos root, if_pos rfl, fd, sound.find_cluster linear held]
    · have inhabited : (view vol disk).count top ≠ 0 := by
        obtain ⟨inside, _⟩ := contained'
        change size vol disk (fdOf vol top) ≠ 0
        omega
      rw [dotdotNum, if_neg root, if_neg (sound.linked.low top inhabited root), unrooted top root,
        sound.find_cluster linear held]

end Lookup

/-- A careful run keeps the links of the directories. -/
theorem Sound.trace {past : List Disk} (run : Trace (Initial vol) (Careful vol) (Tree.step vol) past disk) :
    Linear vol ∧ Sound vol disk := by
  refine run.invariant (fun disk => Linear vol ∧ Sound vol disk) ?_ ?_
  · exact fun disk initial => ⟨initial.toLinear, initial.sound⟩
  · rintro disk op next ⟨linear, sound⟩ careful taken
    exact ⟨linear, sound.step linear careful taken⟩

/-- In every run of careful operations from an empty volume, every directory other than the root directory knows its
parent, and so does whatever has an entry as a directory. -/
theorem directories_know_their_parent {past : List Disk}
    (run : Trace (Initial vol) (Careful vol) (step vol) past disk) :
    (∀ dir, dir ≠ vol.rdirCl → Opened vol disk dir → KnowsParent vol disk dir) ∧
      ∀ above i dir, Contains vol disk above i dir → KnowsParent vol disk dir := by
  obtain ⟨linear, sound⟩ := Sound.trace run
  constructor
  · intro dir differs opened
    exact sound.knowsParent linear differs opened
  · intro above i dir contained
    obtain ⟨differs, opened⟩ := sound.linked.target _ _ _ (contains_iff.mp contained)
    exact sound.knowsParent linear differs opened

/-- The boot record of a FAT12 volume with 16 entries in the root directory and ten clusters of a sector. -/
def emptyBoot : Content
  | 12 => 2
  | 13 => 1
  | 14 => 1
  | 16 => 1
  | 17 => 16
  | 19 => 13
  | 22 => 1
  | _ => 0

/-- Its device. -/
def emptyDevice : Device where
  mediaBlockSize := 512
  size := 13
  fits := by decide
  bdsPerGroup := fun _ => 1
  blockCount := 13

/-- The file system behind the mount. -/
def emptyVolume : FsInfo where
  vol := volumeOf emptyBoot .fat12
  freeCls := undefinedValue
  nextCl := undefinedValue
  c := { blkNum := 0, modified := false, actual := false, buf := fun _ => 0 }
  device := emptyDevice
  disk := emptyBoot
  unread := fun _ _ => 0

theorem emptyVolume_accepted : fatInitVolumeInfo emptyBoot (fun _ _ => 0) emptyDevice = .ok emptyVolume := rfl

/-- The directories of the empty volume. -/
def noEntries : Disk := ⟨fun _ => .last, fun _ => []⟩

theorem noEntries_initial : Initial emptyVolume.vol noEntries where
  toSized := (fatInitVolumeInfo_mounted emptyVolume_accepted).toSized
  root := by decide
  data := by decide
  rootCluster := fun type => by cases type
  rootEntries := fun _ => by decide
  chain := fun _ => (if_neg fun root => by cases root.1).symm
  empty := fun _ _ => rfl

/-- A directory with another one in it gets another name. -/
theorem directories_know_their_parent_renamed : ∃ past disk,
    Trace (Initial emptyVolume.vol) (Careful emptyVolume.vol) (step emptyVolume.vol) past disk ∧
      getDotdotNode emptyVolume.vol disk (fdOf emptyVolume.vol 3) = some ⟨0, 32⟩ ∧
      KnowsParent emptyVolume.vol disk 3 := by
  obtain ⟨past, disk, run, seen⟩ := Trace.observe (Careful emptyVolume.vol) (step emptyVolume.vol) noEntries
    noEntries_initial [.mkdir 0 [97] [] 0 2, .mkdir 2 [98] [] 0 3, .rename ⟨0, 0, 0⟩ 0 [99] [] 0]
    (fun disk => (size emptyVolume.vol disk (fdOf emptyVolume.vol 3),
      getDotdotNode emptyVolume.vol disk (fdOf emptyVolume.vol 3)))
    (16, some ⟨0, 32⟩) (by decide +kernel) (by decide +kernel)
  obtain ⟨long, found⟩ := Prod.mk.inj seen
  refine ⟨past, disk, run, found, (directories_know_their_parent run).1 3 (by decide) ?_⟩
  rw [Opened, long]
  decide

/-- A directory that moves to another directory keeps the entry for its old parent. -/
theorem moved_directory_has_its_old_parent :
    ¬ ∀ (boot : Content) (unread : Nat → Content) (device : Device) (fs : FsInfo),
      fatInitVolumeInfo boot unread device = .ok fs →
      ∀ past disk, Trace (Initial fs.vol) (Called fs.vol) (step fs.vol) past disk →
        ∀ above i dir, Contains fs.vol disk above i dir → KnowsParent fs.vol disk dir := by
  intro claim
  obtain ⟨past, disk, run, seen⟩ := Trace.observe (Called emptyVolume.vol) (step emptyVolume.vol) noEntries
    noEntries_initial [.mkdir 0 [97] [] 0 2, .mkdir 0 [98] [] 0 3, .rename ⟨0, 0, 0⟩ 3 [97] [] 0]
    (fun disk => (decide (2 < size emptyVolume.vol disk (fdOf emptyVolume.vol 3)),
      entryAt emptyVolume.vol disk (fdOf emptyVolume.vol 3) 2, entryAt emptyVolume.vol disk (fdOf emptyVolume.vol 2) 1))
    (true, .short [97] true 2, .short dotdotName true 0) (by decide +kernel) (by decide +kernel)
  obtain ⟨inside, seen⟩ := Prod.mk.inj seen
  obtain ⟨entry, dotdot⟩ := Prod.mk.inj seen
  have contained : Contains emptyVolume.vol disk 3 2 2 :=
    ⟨of_decide_eq_true inside, .inr (Nat.le_refl 2), [97], entry⟩
  have knows := claim _ _ _ _ emptyVolume_accepted past disk run 3 2 2 contained
  exact absurd (dotdot.symm.trans (knows.parent 3 2 contained)) (by decide)

end Rtems.Dosfs.Tree
