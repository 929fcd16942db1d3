import Rtems.Library.Transition
import Rtems.Watchdog.Header

/-!
# The order of the watchdogs over whole runs

A run starts with an empty header and inserts, removes and tickles in any order. Each
insertion stamps the watchdog with the number of insertions before it, so that the
order of insertion can be read off a state. The invariant says that the tree is a
red-black tree, that its sequence is sorted by expiration time and then by stamp, and
that the cached first watchdog is the head of the sequence.
-/

namespace Rtems.Watchdog

open RedBlack Transition
open Function (update update_of_ne update_self)

universe u
variable {W : Type u} [DecidableEq W]

/-- The watchdogs with a record of the insertions so far. -/
structure System (W : Type u) where
  timers : Timers W
  insertions : Nat
  stamp : W → Nat

/-- The steps on a header. A tickle is requested with a time only: its callers pass the
first watchdog and do nothing if there is none. -/
inductive Operation (W : Type u) where
  | insert (watchdog : W) (expire : Nat)
  | remove (watchdog : W)
  | tickle (now : Nat)

section Steps

variable (insertColor extract : RedBlack.Tree W → W → RedBlack.Tree W)

/-- A tickle with as many rounds as there are scheduled watchdogs. -/
def Timers.tickle (timers : Timers W) (now : Nat) : Option (Timers W × List W) :=
  match timers.header.first with
  | none => some (timers, [])
  | some first => timers.doTickle extract now timers.sequence.length first

/-- One step on the header. -/
def System.step (system : System W) : Operation W → Option (System W)
  | .insert watchdog expire =>
      (system.timers.insert insertColor watchdog expire).map fun timers =>
        { timers
          insertions := system.insertions + 1
          stamp := Function.update system.stamp watchdog system.insertions }
  | .remove watchdog => some { system with timers := system.timers.remove extract watchdog }
  | .tickle now =>
      (system.timers.tickle extract now).map fun (timers, _) => { system with timers }

end Steps

/-- The header is empty and no watchdog is scheduled. -/
def Initial (system : System W) : Prop :=
  system.timers.header = ⟨.leaf, none⟩ ∧
    ∀ watchdog, system.timers.word watchdog = .inactive ∨ system.timers.word watchdog = .pending

/-- Expires earlier, or at the same time and was inserted before. -/
def Precedes (expire stamp : W → Nat) (one other : W) : Prop :=
  expire one < expire other ∨ expire one = expire other ∧ stamp one < stamp other

/-- The invariant of the timers for given stamps. -/
structure Ordered (stamp : W → Nat) (timers : Timers W) : Prop where
  valid : Valid timers.header.watchdogs
  sorted : timers.sequence.Pairwise (Precedes timers.expire stamp)
  first : timers.header.first = timers.sequence.head?
  outside : ∀ watchdog ∉ timers.sequence,
    timers.word watchdog = .inactive ∨ timers.word watchdog = .pending

/-- The invariant of a run: stamps of scheduled watchdogs lie in the past. -/
structure Sound (system : System W) : Prop where
  ordered : Ordered system.stamp system.timers
  past : ∀ watchdog ∈ system.timers.sequence, system.stamp watchdog < system.insertions

/-- What a tickle leaves behind and which watchdogs it calls. -/
structure Tickled (stamp : W → Nat) (now : Nat) (timers after : Timers W) (called : List W) :
    Prop where
  fired : called = timers.sequence.filter fun one => timers.expire one ≤ now
  left : after.sequence = timers.sequence.filter fun one => now < timers.expire one
  expire : after.expire = timers.expire
  word : ∀ one, after.word one = if one ∈ called then .inactive else timers.word one
  ordered : Ordered stamp after

variable {stamp : W → Nat}

omit [DecidableEq W] in
theorem Precedes.earlier {expire : W → Nat} {one other : W}
    (precedes : Precedes expire stamp one other) : expire one ≤ expire other := by
  obtain before | ⟨same, -⟩ := precedes
  · exact Nat.le_of_lt before
  · exact Nat.le_of_eq same

variable {timers : Timers W}

omit [DecidableEq W] in
/-- No watchdog is scheduled twice. -/
theorem Ordered.nodup (ordered : Ordered stamp timers) : timers.sequence.Nodup := by
  refine ordered.sorted.imp ?_
  rintro one other precedes rfl
  obtain before | ⟨-, before⟩ := precedes <;> omega

/-- A watchdog with a new stamp keeps the order between those that do not expire later
and those that do. -/
theorem precedes_insert {expires : W → Nat} (watchdog : W) (expire insertions : Nat)
    (front back : List W) (sorted : (front ++ back).Pairwise (Precedes expires stamp))
    (absent : watchdog ∉ front ++ back) (notLater : ∀ one ∈ front, expires one ≤ expire)
    (later : ∀ other ∈ back, expire < expires other)
    (past : ∀ one ∈ front ++ back, stamp one < insertions) :
    (front ++ watchdog :: back).Pairwise (Precedes (update expires watchdog expire)
        (update stamp watchdog insertions)) := by
  have others : ∀ one ∈ front ++ back, one ≠ watchdog := by
    rintro one mem rfl
    exact absent mem
  have kept : (front ++ back).Pairwise (Precedes (update expires watchdog expire)
        (update stamp watchdog insertions)) := by
    refine sorted.imp_of_mem ?_
    intro one other mem memberOther precedes
    unfold Precedes
    rw [update_of_ne (others one mem), update_of_ne (others one mem),
      update_of_ne (others other memberOther),
      update_of_ne (others other memberOther)]
    exact precedes
  obtain ⟨keptFront, keptBack, across⟩ := List.pairwise_append.mp kept
  refine List.pairwise_append.mpr ⟨keptFront, List.pairwise_cons.mpr ⟨?_, keptBack⟩, ?_⟩
  · intro other mem
    unfold Precedes
    rw [update_self, update_of_ne (others other (List.mem_append_right _ mem))]
    exact .inl (later other mem)
  · intro one mem other memberOther
    rcases List.mem_cons.mp memberOther with rfl | memberOther
    · have different := others one (List.mem_append_left _ mem)
      unfold Precedes
      rw [update_self, update_self, update_of_ne different, update_of_ne different]
      have bound := notLater one mem
      have older := past one (List.mem_append_left _ mem)
      omega
    · exact across one mem other memberOther

section Laws

variable {insertColor extract : RedBlack.Tree W → W → RedBlack.Tree W} {stamp : W → Nat}

/-- The scheduled watchdogs are those of the sequence. -/
theorem Ordered.isScheduled (ordered : Ordered stamp timers) (watchdog : W) :
    timers.isScheduled watchdog = true ↔ watchdog ∈ timers.sequence :=
  timers.isScheduled_iff watchdog (ordered.outside watchdog)

/-- The step of the cached first watchdog reaches the second of the sequence. -/
theorem Ordered.nextFirst (ordered : Ordered stamp timers) (first : W) (rest : List W)
    (listed : timers.sequence = first :: rest) :
    timers.header.nextFirst first = { watchdogs := timers.header.watchdogs, first := rest.head? } := by
  have next := next_first timers.header.watchdogs first rest ordered.valid ordered.nodup listed
  unfold Header.nextFirst
  cases found : timers.header.watchdogs.right first with
  | none | some => simp [← next, found]

/-- Taking a scheduled watchdog out of the tree removes it from the sequence and makes
it inactive, provided that the first watchdog was set before. -/
theorem Ordered.takeOut (lawful : Lawful insertColor extract)
    (ordered : Ordered stamp timers) (watchdog : W) (scheduled : watchdog ∈ timers.sequence)
    (first : Option W) (set : first = (timers.sequence.erase watchdog).head?) :
    ∃ after, timers.takeOut extract ⟨timers.header.watchdogs, first⟩ watchdog = after ∧
      after.sequence = timers.sequence.erase watchdog ∧ after.expire = timers.expire ∧
      after.word = update timers.word watchdog .inactive ∧ Ordered stamp after := by
  have taken := lawful.extract_inorder timers.header.watchdogs watchdog ordered.valid
    ordered.nodup scheduled
  refine ⟨_, rfl, taken, rfl, rfl, ?_⟩
  refine ⟨lawful.extract_valid _ watchdog ordered.valid ordered.nodup scheduled, ?_, ?_, ?_⟩
  · show List.Pairwise _ (extract timers.header.watchdogs watchdog).inorder
    rw [taken]
    exact ordered.sorted.sublist List.erase_sublist
  · show first = (extract timers.header.watchdogs watchdog).inorder.head?
    rw [taken]
    exact set
  · intro other absent
    show update timers.word watchdog .inactive other = _ ∨
      update timers.word watchdog .inactive other = _
    by_cases same : other = watchdog
    · rw [same, update_self]
      exact .inl rfl
    · rw [update_of_ne same]
      apply ordered.outside other
      intro mem
      apply absent
      show other ∈ (extract timers.header.watchdogs watchdog).inorder
      rw [taken]
      exact (List.mem_erase_of_ne same).mpr mem

/-- The law of a removal: a scheduled watchdog leaves the sequence and becomes inactive,
any other watchdog is left alone. -/
theorem Ordered.remove (lawful : Lawful insertColor extract)
    (ordered : Ordered stamp timers) (watchdog : W) :
    ∃ after, timers.remove extract watchdog = after ∧
      after.sequence = timers.sequence.erase watchdog ∧ after.expire = timers.expire ∧
      Ordered stamp after := by
  by_cases scheduled : watchdog ∈ timers.sequence
  · have guard : timers.isScheduled watchdog = true := (ordered.isScheduled watchdog).mpr scheduled
    have set : (if timers.header.first = some watchdog then timers.header.nextFirst watchdog
        else timers.header) =
        ⟨timers.header.watchdogs, (timers.sequence.erase watchdog).head?⟩ := by
      cases listed : timers.sequence with
      | nil => simp [listed] at scheduled
      | cons first rest =>
        have head : timers.header.first = some first := by rw [ordered.first, listed]; rfl
        by_cases same : first = watchdog
        · subst same
          rw [if_pos head, ordered.nextFirst first rest listed, List.erase_cons_head]
        · have other : timers.header.first ≠ some watchdog := by simpa [head] using same
          rw [if_neg other, List.erase_cons_tail (by simpa using same)]
          simp [← head]
    obtain ⟨after, taken, sequence, expire, -, kept⟩ :=
      ordered.takeOut lawful watchdog scheduled _ rfl
    refine ⟨after, ?_, sequence, expire, kept⟩
    rw [Timers.remove, if_pos guard, set]
    exact taken
  · have guard : timers.isScheduled watchdog ≠ true := by
      intro guard
      exact scheduled ((ordered.isScheduled watchdog).mp guard)
    refine ⟨timers, ?_, ?_, rfl, ordered⟩
    · rw [Timers.remove, if_neg guard]
    · rw [List.erase_of_not_mem scheduled]

variable {sys : System W}

/-- The law of an insertion: the watchdog comes behind all scheduled ones that do not
expire later, and its stamp is newer than theirs. -/
theorem Sound.insert (lawful : Lawful insertColor extract)
    (sound : Sound sys) (watchdog : W) (expire : Nat) (after : Timers W)
    (inserted : sys.timers.insert insertColor watchdog expire = some after) :
    Sound (⟨after, sys.insertions + 1, update sys.stamp watchdog sys.insertions⟩ : System W) := by
  unfold Timers.insert at inserted
  split at inserted
  case isFalse => cases inserted
  case isTrue inactive =>
    have absent := sys.timers.inactive_outside watchdog inactive
    obtain rfl := (Option.some.inj inserted).symm
    have others : ∀ other ∈ sys.timers.sequence, other ≠ watchdog := by
      rintro other mem rfl
      exact absent mem
    have early : sys.timers.header.watchdogs.inorder.Pairwise fun one other =>
        update sys.timers.expire watchdog expire one ≤
          update sys.timers.expire watchdog expire other := by
      refine sound.ordered.sorted.imp_of_mem ?_
      intro one other mem memberOther precedes
      rw [update_of_ne (others one mem), update_of_ne (others other memberOther)]
      exact precedes.earlier
    obtain ⟨front, back, split, added, notLater, later, moved⟩ :=
      addChild_spec _ watchdog expire sys.timers.header.first _ early
    have hung := addChild_hung (update sys.timers.expire watchdog expire) watchdog
      expire sys.timers.header.watchdogs
    have listed := (lawful.insert_inorder _ _ watchdog sound.ordered.valid hung).trans added
    have order := sound.ordered.sorted
    have sequence : sys.timers.sequence = front ++ back := split
    refine ⟨⟨lawful.insert_valid _ _ watchdog sound.ordered.valid hung, ?_, ?_, ?_⟩, ?_⟩
    · show List.Pairwise _ (insertColor _ watchdog).inorder
      rw [listed]
      exact precedes_insert watchdog expire sys.insertions front back (sequence ▸ order)
        (sequence ▸ absent) (fun one mem => by
          have same := others one (sequence ▸ List.mem_append_left back mem)
          simpa [update_of_ne same] using notLater one mem)
        (fun other mem => by
          have same := others other (sequence ▸ List.mem_append_right front mem)
          simpa [update_of_ne same] using later other mem)
        (fun one mem => sound.past one (sequence ▸ mem))
    · show newFirst _ expire sys.timers.header.first (some watchdog) _ =
        (insertColor _ watchdog).inorder.head?
      rw [listed, moved, sound.ordered.first, sequence]
      cases front <;> rfl
    · intro other outside
      apply sound.ordered.outside other
      intro mem
      apply outside
      show other ∈ (insertColor _ watchdog).inorder
      rw [listed]
      rw [sequence] at mem
      simp only [List.mem_append] at mem ⊢
      tauto
    · intro other mem
      have mem : other ∈ front ++ watchdog :: back := listed ▸ mem
      show update sys.stamp watchdog sys.insertions other < sys.insertions + 1
      by_cases same : other = watchdog
      · rw [same, update_self]
        exact Nat.lt_succ_self _
      · rw [update_of_ne same]
        apply Nat.lt_succ_of_lt
        apply sound.past other
        rw [sequence]
        simp only [List.mem_append, List.mem_cons, same, false_or] at mem ⊢
        exact mem

/-- The watchdog that the tickle loop takes out leaves the rest of the sequence. -/
theorem Ordered.expireFirst (lawful : Lawful insertColor extract) (first : W) (rest : List W)
    (ordered : Ordered stamp timers) (listed : timers.sequence = first :: rest) :
    ∃ after, timers.takeOut extract (timers.header.nextFirst first) first = after ∧
      after.sequence = rest ∧ after.expire = timers.expire ∧
      after.word = update timers.word first .inactive ∧ Ordered stamp after := by
  have scheduled : first ∈ timers.sequence := by simp [listed]
  have erased : timers.sequence.erase first = rest := by rw [listed, List.erase_cons_head]
  obtain ⟨after, taken, sequence, expire, word, kept⟩ :=
    ordered.takeOut lawful first scheduled rest.head? (by rw [erased])
  refine ⟨after, ?_, sequence.trans erased, expire, word, kept⟩
  rw [ordered.nextFirst first rest listed]
  exact taken

/-- The tickle loop stops at a watchdog that expires later, as all behind it do. -/
theorem Ordered.tickled_idle (now : Nat) (first : W) (rest : List W)
    (ordered : Ordered stamp timers) (listed : timers.sequence = first :: rest)
    (later : now < timers.expire first) : Tickled stamp now timers timers [] := by
  have allLater : ∀ one ∈ timers.sequence, now < timers.expire one := by
    have sorted := ordered.sorted
    rw [listed] at sorted ⊢
    intro one mem
    rcases List.mem_cons.mp mem with rfl | mem
    · exact later
    · exact Nat.lt_of_lt_of_le later ((List.pairwise_cons.mp sorted).1 one mem).earlier
  refine ⟨?_, ?_, rfl, by simp, ordered⟩
  · symm
    rw [List.filter_eq_nil_iff]
    intro one mem
    simpa using allLater one mem
  · symm
    rw [List.filter_eq_self]
    intro one mem
    simpa using allLater one mem

/-- A round of the tickle loop that calls the first watchdog, before the later rounds. -/
theorem Tickled.round {now : Nat} {first : W} {rest called : List W} {middle after : Timers W}
    (listed : timers.sequence = first :: rest) (expired : timers.expire first ≤ now)
    (sequence : middle.sequence = rest) (expire : middle.expire = timers.expire)
    (word : middle.word = update timers.word first .inactive)
    (tickled : Tickled stamp now middle after called) :
    Tickled stamp now timers after (first :: called) := by
  have fired := tickled.fired
  have left := tickled.left
  rw [sequence, expire] at fired left
  refine ⟨?_, ?_, tickled.expire.trans expire, ?_, tickled.ordered⟩
  · rw [listed, List.filter_cons_of_pos (by simpa using expired), fired]
  · rw [listed, List.filter_cons_of_neg (by simpa using expired), left]
  · intro one
    rw [tickled.word one, word]
    by_cases same : one = first
    · simp [same]
    · simp [same]

/-- The law of the tickle loop: as many rounds as there are watchdogs are enough. -/
theorem Ordered.doTickle (lawful : Lawful insertColor extract) (now : Nat) (first : W)
    (rest : List W) (ordered : Ordered stamp timers) (listed : timers.sequence = first :: rest) :
    ∃ after called, (∀ fuel, (first :: rest).length ≤ fuel →
        timers.doTickle extract now fuel first = some (after, called)) ∧
      Tickled stamp now timers after called := by
  -- the induction follows the rounds of the loop, each of which shortens the sequence
  induction rest generalizing first timers with
  | nil =>
    by_cases expired : timers.expire first ≤ now
    · obtain ⟨after, taken, sequence, expire, word, kept⟩ :=
        ordered.expireFirst lawful first [] listed
      have stop : Tickled stamp now after after [] := by
        exact ⟨by simp [sequence], by simp [sequence], rfl, by simp, kept⟩
      refine ⟨after, [first], ?_, stop.round listed expired sequence expire word⟩
      intro fuel enough
      obtain ⟨fuel, rfl⟩ := Nat.exists_eq_add_of_lt enough
      have empty : after.header.first = none := by rw [kept.first, sequence]; rfl
      simp [Timers.doTickle, expired, taken, empty]
    · refine ⟨timers, [], ?_, ordered.tickled_idle now first [] listed (by omega)⟩
      intro fuel enough
      obtain ⟨fuel, rfl⟩ := Nat.exists_eq_add_of_lt enough
      simp [Timers.doTickle, expired]
  | cons second rest ih =>
    by_cases expired : timers.expire first ≤ now
    · obtain ⟨middle, taken, sequence, expire, word, kept⟩ :=
        ordered.expireFirst lawful first (second :: rest) listed
      obtain ⟨after, called, rounds, tickled⟩ := ih second kept sequence
      refine ⟨after, first :: called, ?_, tickled.round listed expired sequence expire word⟩
      intro fuel enough
      obtain ⟨fuel, rfl⟩ := Nat.exists_eq_add_of_lt enough
      have next : middle.header.first = some second := by rw [kept.first, sequence]; rfl
      have later := rounds (rest.length + 1 + fuel) (by simp)
      rw [Timers.doTickle, if_pos expired]
      simp only [taken, next]
      rw [show (second :: rest).length + fuel = rest.length + 1 + fuel from rfl, later]
      rfl
    · refine ⟨timers, [], ?_, ordered.tickled_idle now first (second :: rest) listed (by omega)⟩
      intro fuel enough
      obtain ⟨fuel, rfl⟩ := Nat.exists_eq_add_of_lt enough
      simp [Timers.doTickle, expired]

/-- Every step keeps the invariant. -/
theorem Sound.step (lawful : Lawful insertColor extract) {next : System W}
    (operation : Operation W) (sound : Sound sys)
    (taken : sys.step insertColor extract operation = some next) : Sound next := by
  cases operation with
  | insert watchdog expire =>
    obtain ⟨after, inserted, rfl⟩ := Option.map_eq_some_iff.mp taken
    exact sound.insert lawful watchdog expire after inserted
  | remove watchdog =>
    obtain ⟨after, removed, sequence, expire, kept⟩ := sound.ordered.remove lawful watchdog
    obtain rfl := (Option.some.inj taken).symm
    rw [removed]
    refine ⟨kept, ?_⟩
    intro one mem
    exact sound.past one (List.mem_of_mem_erase (sequence ▸ mem))
  | tickle now =>
    obtain ⟨⟨after, called⟩, ticked, rfl⟩ := Option.map_eq_some_iff.mp taken
    unfold Timers.tickle at ticked
    cases listed : sys.timers.sequence with
    | nil =>
      rw [sound.ordered.first, listed] at ticked
      cases ticked
      exact sound
    | cons first rest =>
      rw [sound.ordered.first, listed] at ticked
      obtain ⟨reached, fired, rounds, tickled⟩ :=
        sound.ordered.doTickle lawful now first rest listed
      have same := (rounds _ (Nat.le_refl _)).symm.trans ticked
      obtain ⟨rfl, rfl⟩ : reached = after ∧ fired = called := by simpa using same
      refine ⟨tickled.ordered, ?_⟩
      intro one mem
      rw [tickled.left] at mem
      exact sound.past one (List.mem_of_mem_filter mem)

omit [DecidableEq W] in
theorem Initial.sound (initial : Initial sys) : Sound sys := by
  obtain ⟨empty, idle⟩ := initial
  have sequence : sys.timers.sequence = [] := by
    unfold Timers.sequence
    rw [empty]
    rfl
  refine ⟨⟨?_, ?_, ?_, fun watchdog _ => idle watchdog⟩, ?_⟩
  · rw [empty]
    exact ⟨0, .leaf⟩
  · rw [sequence]
    exact .nil
  · rw [sequence, empty]
    rfl
  · rw [sequence]
    simp

/-- Every run keeps the invariant. -/
theorem Sound.run (lawful : Lawful insertColor extract) {past : List (System W)}
    (run : Trace Initial (fun _ _ => True) (System.step insertColor extract) past sys) :
    Sound sys :=
  run.invariant Sound (fun _ initial => initial.sound)
    (fun _ operation _ sound _ taken => sound.step lawful operation taken)

end Laws

/-- In every reachable state the header caches the leftmost watchdog, the sequence is
sorted by expiration time with equal times in the order of insertion, and a tickle
returns after at most one round for each scheduled watchdog: it has called exactly the
watchdogs that do not expire later than its time, in sequence and each once, and made
them inactive, and the others are scheduled still. -/
theorem runs_order_watchdogs (insertColor extract : RedBlack.Tree W → W → RedBlack.Tree W)
    (lawful : Lawful insertColor extract) (past : List (System W)) (system : System W)
    (run : Trace Initial (fun _ _ => True) (System.step insertColor extract) past system) :
    (system.timers.header.first = none ↔ system.timers.header.watchdogs = .leaf) ∧
      system.timers.header.first = system.timers.sequence.head? ∧
      system.timers.sequence.Pairwise (Precedes system.timers.expire system.stamp) ∧
      ∀ now first, system.timers.header.first = some first → ∃ after called,
          (∀ fuel, system.timers.sequence.length ≤ fuel →
            system.timers.doTickle extract now fuel first = some (after, called)) ∧
          called = system.timers.sequence.filter (fun one => system.timers.expire one ≤ now) ∧
          called.Nodup ∧ (∀ one ∈ called, after.getState one = .inactive) ∧ after.sequence =
            system.timers.sequence.filter (fun one => now < system.timers.expire one) ∧
          (∀ one ∈ after.sequence, after.isScheduled one = true) ∧
          ∀ one ∉ system.timers.sequence, after.getState one = system.timers.getState one := by
  have sound := Sound.run lawful run
  refine ⟨?_, sound.ordered.first, sound.ordered.sorted, ?_⟩
  · rw [sound.ordered.first, List.head?_eq_none_iff, Timers.sequence, RedBlack.Tree.inorder_eq_nil]
  · intro now first head
    obtain ⟨rest, listed⟩ : ∃ rest, system.timers.sequence = first :: rest := by
      rw [sound.ordered.first, List.head?_eq_some_iff] at head
      exact head
    obtain ⟨after, called, rounds, tickled⟩ := sound.ordered.doTickle lawful now first rest listed
    have fired := tickled.fired
    have left := tickled.left
    refine ⟨after, called, listed ▸ rounds, fired, ?_, ?_, left, ?_, ?_⟩
    · rw [fired]
      exact sound.ordered.nodup.filter _
    · intro one member
      have gone : one ∉ after.sequence := by
        rw [fired] at member
        rw [left]
        simp only [List.mem_filter, decide_eq_true_eq] at member ⊢
        omega
      rw [after.getState_outside one gone, tickled.word one, if_pos member]
    · intro one member
      exact (tickled.ordered.isScheduled one).mpr member
    · intro one absent
      have gone : one ∉ after.sequence := by
        rw [left]
        exact fun member => absent (List.mem_of_mem_filter member)
      have silent : one ∉ called := by
        rw [fired]
        exact fun member => absent (List.mem_of_mem_filter member)
      rw [after.getState_outside one gone, system.timers.getState_outside one absent,
        tickled.word one, if_neg silent]

/-- All watchdogs inactive and none scheduled. -/
def idle : System Nat :=
  { timers := { header := ⟨.leaf, none⟩, expire := fun _ => 0, word := fun _ => .inactive }
    insertions := 0
    stamp := fun _ => 0 }

theorem idle_initial : Initial idle := ⟨rfl, fun _ => .inl rfl⟩

/-- Two watchdogs that expire at the same time; the first of them is removed and
inserted again with a later time. -/
def reinsertion : List (Operation Nat) :=
  [.insert 0 5, .insert 1 5, .remove 0, .insert 0 7]

/-- A tickle between the two expiration times of the session. -/
theorem runs_order_watchdogs_reinsertion :
    ∃ past system, Trace Initial (fun _ _ => True)
        (System.step (fun tree (_ : Nat) => rebuild tree.inorder)
          (fun tree taken => rebuild (tree.inorder.erase taken))) past system ∧
      system.timers.sequence = [1, 0] ∧ system.timers.header.first = some 1 ∧
      ∃ after, system.timers.doTickle (fun tree taken => rebuild (tree.inorder.erase taken))
          6 2 1 = some (after, [1]) ∧
        after.sequence = [0] ∧ after.getState 1 = .inactive ∧ after.isScheduled 0 = true := by
  obtain ⟨past, system, run, seen⟩ := Trace.observe (fun _ _ => True)
    (System.step (fun tree (_ : Nat) => rebuild tree.inorder)
      (fun tree taken => rebuild (tree.inorder.erase taken)))
    idle idle_initial reinsertion
    (fun system => (system.timers.sequence, system.timers.expire 1, system.timers.expire 0))
    ([1, 0], 5, 7) (by decide) (by decide +kernel)
  obtain ⟨sequence, one, two⟩ : system.timers.sequence = [1, 0] ∧ system.timers.expire 1 = 5 ∧
      system.timers.expire 0 = 7 := by simpa using seen
  obtain ⟨-, head, -, tickled⟩ := runs_order_watchdogs _ _ rebuild_lawful past system run
  rw [sequence] at head tickled
  obtain ⟨after, called, rounds, fired, -, inactive, left, scheduled, -⟩ := tickled 6 1 head
  obtain rfl : called = [1] := by simpa [one, two] using fired
  have remaining : after.sequence = [0] := by simpa [one, two] using left
  exact ⟨past, system, run, sequence, head, after, rounds 2 (Nat.le_refl 2), remaining,
    inactive 1 (by simp), scheduled 0 (by simp [remaining])⟩

end Rtems.Watchdog
