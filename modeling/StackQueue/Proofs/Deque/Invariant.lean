import StackQueue.Deque.Call
import StackQueue.Proofs.Deque.Segment

/-! The invariant of the container's slots. `d.Chain l` says that `l` is the chain of `d`: a
segment from the front slot to the back slot that links to nothing at either end, one slot per
value, and that the chain and the free list together hold every slot of the array exactly once.
A slot that is off the chain and off the free list, between its removal and its release or
between its allocation and its linking, is `Detached`.

Each operation keeps the invariant with its new chain said outright: a push adds the new slot
at one end, a removal drops one end, a rotation moves one end to the other, and a write keeps
the chain. -/

namespace StackQueue.Deque

/-- `l` is the chain of `d`: its slots from front to back. -/
structure Chain (d : Deque) (l : List Nat) : Prop where
  segment : Segment d.slots none d.head l d.tail none
  length_eq : l.length = d.size
  perm : (l ++ d.free).Perm (List.range d.slots.size)

/-- `l` is the chain of `d`, and slot `i` is on neither the chain nor the free list. -/
structure Detached (d : Deque) (l : List Nat) (i : Nat) : Prop where
  segment : Segment d.slots none d.head l d.tail none
  length_eq : l.length = d.size
  perm : (i :: (l ++ d.free)).Perm (List.range d.slots.size)

@[simp] theorem size_setNext (slots : Array Slot) (i : Nat) (n : Option Nat) :
    (setNext slots i n).size = slots.size := Array.size_modify

@[simp] theorem size_setPrev (slots : Array Slot) (i : Nat) (p : Option Nat) :
    (setPrev slots i p).size = slots.size := Array.size_modify

variable {d : Deque} {l : List Nat} {i : Nat}

namespace Chain

theorem empty (mode : Mode) : (empty mode).Chain [] := ⟨.nil none none, rfl, .nil⟩

theorem nodup (h : d.Chain l) : (l ++ d.free).Nodup :=
  h.perm.nodup_iff.mpr List.nodup_range

theorem mem_iff (h : d.Chain l) {j : Nat} : j ∈ l ++ d.free ↔ j < d.slots.size := by
  rw [h.perm.mem_iff, List.mem_range]

theorem lt_size (h : d.Chain l) {j : Nat} (hj : j ∈ l) : j < d.slots.size :=
  h.segment.lt_size hj

theorem head_eq (h : d.Chain l) : d.head = l.head? := by
  simpa [Option.or_none] using h.segment.first_eq

theorem tail_eq (h : d.Chain l) : d.tail = l.getLast? := by
  simpa [Option.or_none] using h.segment.last_eq

/-- The walk from the front meets exactly the chain. -/
theorem ids_eq (h : d.Chain l) : d.ids = l := by
  have hlen : l.length ≤ d.slots.size := by
    have := h.perm.length_eq
    simp only [List.length_append, List.length_range] at this
    omega
  exact h.segment.chainFrom_eq hlen

theorem toList_eq (h : d.Chain l) : d.toList = l.filterMap (valueAt d.slots) := by
  rw [toList_eq_filterMap, h.ids_eq]

end Chain

/-! ### Allocation -/

@[simp] theorem allocate_head (v : Word) : (d.allocate v).1.head = d.head := by
  unfold allocate; split <;> rfl

@[simp] theorem allocate_tail (v : Word) : (d.allocate v).1.tail = d.tail := by
  unfold allocate; split <;> rfl

@[simp] theorem allocate_size (v : Word) : (d.allocate v).1.size = d.size := by
  unfold allocate; split <;> rfl

@[simp] theorem allocate_mode (v : Word) : (d.allocate v).1.mode = d.mode := by
  unfold allocate; split <;> rfl

/-- A new slot holding `v` is detached from the chain, and no other slot changes its value. A
free slot is reused before the array grows, and the array grows only when every slot is on the
chain. -/
theorem Chain.allocate (h : d.Chain l) (v : Word) :
    (d.allocate v).1.Detached l (d.allocate v).2 ∧
      valueAt (d.allocate v).1.slots (d.allocate v).2 = some v ∧
      (∀ j, j ≠ (d.allocate v).2 → valueAt (d.allocate v).1.slots j = valueAt d.slots j) ∧
      (d.allocate v).1.slots.size = max d.slots.size (d.size + 1) := by
  have hperm := h.perm
  unfold Deque.allocate
  split
  · next i rest hfree =>
    rw [hfree] at hperm
    have hi : i < d.slots.size := h.mem_iff.mp (by simp [hfree])
    have hil : i ∉ l := by
      have := h.nodup
      rw [hfree, List.nodup_append] at this
      exact fun hm => this.2.2 i hm i List.mem_cons_self rfl
    have hsize : d.size + 1 ≤ d.slots.size := by
      have := hperm.length_eq
      simp only [List.length_append, List.length_cons, List.length_range] at this
      have := h.length_eq
      omega
    refine ⟨⟨h.segment.frame fun j hj => ?_, h.length_eq, ?_⟩, by simp [hi], ?_, ?_⟩
    · simp [show i ≠ j from fun e => hil (e ▸ hj)]
    · simpa using List.perm_middle.symm.trans hperm
    · intro j hj
      simp [Ne.symm hj]
    · simp
      omega
  · next hfree =>
    rw [hfree, List.append_nil] at hperm
    have hsize : d.slots.size = d.size := by
      rw [← h.length_eq, hperm.length_eq, List.length_range]
    refine ⟨⟨h.segment.frame fun j hj => ?_, h.length_eq, ?_⟩, by simp, ?_, ?_⟩
    · simp [show j ≠ d.slots.size from Nat.ne_of_lt (h.lt_size hj)]
    · simp only [hfree, List.append_nil, Array.size_push, List.range_succ]
      exact (List.perm_append_singleton _ _).symm.trans (hperm.append_right _)
    · intro j hj
      simp [hj]
    · simp
      omega

/-! ### Linking and unlinking -/

theorem Detached.not_mem (h : d.Detached l i) : i ∉ l ++ d.free :=
  (List.nodup_cons.mp (h.perm.nodup_iff.mpr List.nodup_range)).1

theorem Detached.nodup (h : d.Detached l i) : (l ++ d.free).Nodup :=
  (List.nodup_cons.mp (h.perm.nodup_iff.mpr List.nodup_range)).2

theorem Detached.lt_size (h : d.Detached l i) : i < d.slots.size :=
  List.mem_range.mp (h.perm.mem_iff.mp List.mem_cons_self)

/-- Linking a detached slot at the front puts it first on the chain. -/
theorem Detached.linkFront (h : d.Detached l i) : (d.linkFront i).Chain (i :: l) := by
  have hil : i ∉ l := fun hm => h.not_mem (List.mem_append_left _ hm)
  obtain ⟨lk, hi⟩ := Option.isSome_iff_exists.mp (isSome_linksAt.mpr h.lt_size)
  unfold Deque.linkFront
  split
  · next hd hhead =>
    have hseg := h.segment
    rw [hhead] at hseg
    obtain ⟨t, rfl⟩ := hseg.exists_cons
    obtain ⟨-, f, hlinks, hrest⟩ := hseg.cons_inv
    have hne : i ≠ hd := fun e => hil (e ▸ List.mem_cons_self)
    have hnt : hd ∉ t := (List.nodup_cons.mp (List.nodup_append.mp h.nodup).1).1
    refine ⟨.cons ?_ (.cons ?_ (hrest.frame fun j hj => ?_)), by simp [h.length_eq],
      by simpa using h.perm⟩
    · simp [hne.symm, hhead, hi]
    · simp [hne, hlinks]
    · have hij : i ≠ j := fun e => hil (e ▸ List.mem_cons_of_mem _ hj)
      have hdj : hd ≠ j := fun e => hnt (e ▸ hj)
      simp [hij, hdj]
  · next hhead =>
    have hseg := h.segment
    rw [hhead] at hseg
    obtain rfl := hseg.eq_nil_of_first
    obtain ⟨-, htail⟩ := hseg.nil_inv
    refine ⟨.cons ?_ (.nil _ _), by simp [h.length_eq], by simpa using h.perm⟩
    · simp [hhead, hi]

/-- Linking a detached slot at the back puts it last on the chain. -/
theorem Detached.linkBack (h : d.Detached l i) : (d.linkBack i).Chain (l ++ [i]) := by
  have hil : i ∉ l := fun hm => h.not_mem (List.mem_append_left _ hm)
  obtain ⟨lk, hi⟩ := Option.isSome_iff_exists.mp (isSome_linksAt.mpr h.lt_size)
  have hperm : (l ++ [i] ++ d.free).Perm (List.range d.slots.size) := by
    rw [List.append_assoc, List.singleton_append]
    exact List.perm_middle.trans h.perm
  unfold Deque.linkBack
  split
  · next tl htail =>
    have hseg := h.segment
    rw [htail] at hseg
    obtain ⟨t, rfl⟩ := hseg.exists_snoc
    obtain ⟨-, z, hinit, hlinks⟩ := hseg.of_snoc
    have hne : i ≠ tl := fun e => hil (e ▸ List.mem_append_right _ List.mem_cons_self)
    have hnt : tl ∉ t := by
      have := (List.nodup_append.mp h.nodup).1
      rw [List.nodup_append] at this
      exact fun hm => this.2.2 tl hm tl List.mem_cons_self rfl
    have hinit' : Segment
        (setNext (d.slots.modify i fun s => { s with prev := d.tail, next := none }) tl (some i))
        none d.head t z (some tl) := by
      refine hinit.frame fun j hj => ?_
      have hij : i ≠ j := fun e => hil (e ▸ List.mem_append_left _ hj)
      have htj : tl ≠ j := fun e => hnt (e ▸ hj)
      simp [hij, htj]
    refine ⟨(hinit'.snoc ?_).snoc ?_, by simpa using h.length_eq, by simpa using hperm⟩
    · simp [hne, hlinks]
    · simp [hne.symm, htail, hi]
  · next htail =>
    have hseg := h.segment
    rw [htail] at hseg
    obtain rfl := hseg.eq_nil_of_last
    obtain ⟨-, -⟩ := hseg.nil_inv
    refine ⟨.cons ?_ (.nil _ _), by simp [h.length_eq], by simpa using hperm⟩
    simp [htail, hi]

/-- Unlinking the front slot leaves the rest of the chain, and the slot detached. -/
theorem Chain.unlink_front {t : List Nat} (h : d.Chain (i :: t)) : (d.unlink i).Detached t i := by
  obtain ⟨-, f, hlinks, hrest⟩ := h.segment.cons_inv
  obtain ⟨s, hs, hsl⟩ := Option.map_eq_some_iff.mp hlinks
  obtain ⟨hprev, hnext⟩ := Prod.mk.inj hsl
  have hit : i ∉ t := (List.nodup_cons.mp (List.nodup_append.mp h.nodup).1).1
  have hlen : t.length + 1 = d.size := h.length_eq
  unfold Deque.unlink
  rw [hs]
  simp only [hprev]
  cases t with
  | nil =>
    obtain ⟨rfl, -⟩ := hrest.nil_inv
    simp only [hnext]
    exact ⟨.nil none none, by simp at hlen ⊢; omega, by simpa using h.perm⟩
  | cons n t =>
    obtain ⟨rfl, g, hnlinks, hnrest⟩ := hrest.cons_inv
    have hin : i ≠ n := fun e => hit (e ▸ List.mem_cons_self)
    have hnt : n ∉ t := (List.nodup_cons.mp (List.nodup_cons.mp
      (List.nodup_append.mp h.nodup).1).2).1
    simp only [hnext]
    refine ⟨.cons ?_ (hnrest.frame fun j hj => ?_), by simp at hlen ⊢; omega,
      by simpa using h.perm⟩
    · simp [hin, hnlinks]
    · have hij : i ≠ j := fun e => hit (e ▸ List.mem_cons_of_mem _ hj)
      have hnj : n ≠ j := fun e => hnt (e ▸ hj)
      simp [hij, hnj]

/-- Unlinking the back slot leaves the rest of the chain, and the slot detached. -/
theorem Chain.unlink_back {t : List Nat} (h : d.Chain (t ++ [i])) : (d.unlink i).Detached t i := by
  obtain ⟨-, z, hinit, hlinks⟩ := h.segment.of_snoc
  obtain ⟨s, hs, hsl⟩ := Option.map_eq_some_iff.mp hlinks
  obtain ⟨hprev, hnext⟩ := Prod.mk.inj hsl
  have hnodup := (List.nodup_append.mp h.nodup).1
  have hit : i ∉ t := fun hm => (List.nodup_append.mp hnodup).2.2 i hm i List.mem_cons_self rfl
  have hlen : t.length + 1 = d.size := by simpa using h.length_eq
  have hperm : (i :: (t ++ d.free)).Perm (List.range d.slots.size) := by
    refine List.perm_middle.symm.trans ?_
    simpa using h.perm
  unfold Deque.unlink
  rw [hs]
  simp only [hnext]
  rcases List.eq_nil_or_concat t with rfl | ⟨t, p, rfl⟩
  · obtain ⟨-, rfl⟩ := hinit.nil_inv
    simp only [hprev]
    exact ⟨.nil none none, by simp at hlen ⊢; omega, by simpa using hperm⟩
  · rw [List.concat_eq_append] at hinit hit hlen hperm hnodup ⊢
    obtain ⟨rfl, y, hpinit, hplinks⟩ := hinit.of_snoc
    have hip : i ≠ p := fun e => hit (e ▸ List.mem_append_right _ List.mem_cons_self)
    have hpt : p ∉ t := fun hm => (List.nodup_append.mp (List.nodup_append.mp hnodup).1).2.2
      p hm p List.mem_cons_self rfl
    simp only [hprev]
    refine ⟨(hpinit.frame fun j hj => ?_).snoc ?_, by simp at hlen ⊢; omega,
      by simpa using hperm⟩
    · have hij : i ≠ j := fun e => hit (e ▸ List.mem_append_left _ hj)
      have hpj : p ≠ j := fun e => hpt (e ▸ hj)
      simp [hij, hpj]
    · simp [hip, hplinks]

/-- Putting a detached slot on the free list keeps the chain. -/
theorem Detached.release (h : d.Detached l i) : ({ d with free := i :: d.free } : Deque).Chain l :=
  ⟨h.segment, h.length_eq, List.perm_middle.trans h.perm⟩

/-! ### Operations -/

/-- A rotation of fewer than two values changes nothing. -/
theorem rotateLeft_of_lt (hsize : d.size < 2) : d.rotateLeft = d := by
  unfold Deque.rotateLeft
  rw [if_pos hsize]

theorem rotateRight_of_lt (hsize : d.size < 2) : d.rotateRight = d := by
  unfold Deque.rotateRight
  rw [if_pos hsize]

namespace Chain

theorem pushFront (h : d.Chain l) (v : Word) :
    (d.pushFront v).Chain ((d.allocate v).2 :: l) :=
  (h.allocate v).1.linkFront

theorem pushBack (h : d.Chain l) (v : Word) :
    (d.pushBack v).Chain (l ++ [(d.allocate v).2]) :=
  (h.allocate v).1.linkBack

theorem dropFront (h : d.Chain l) : d.dropFront.Chain l.tail := by
  unfold Deque.dropFront
  split
  · next i hhead =>
    have hseg := h.segment
    rw [hhead] at hseg
    obtain ⟨t, rfl⟩ := hseg.exists_cons
    exact (h.unlink_front).release
  · next hhead =>
    have hseg := h.segment
    rw [hhead] at hseg
    obtain rfl := hseg.eq_nil_of_first
    exact h

theorem dropBack (h : d.Chain l) : d.dropBack.Chain l.dropLast := by
  unfold Deque.dropBack
  split
  · next i htail =>
    have hseg := h.segment
    rw [htail] at hseg
    obtain ⟨t, rfl⟩ := hseg.exists_snoc
    rw [List.dropLast_concat]
    exact (h.unlink_back).release
  · next htail =>
    have hseg := h.segment
    rw [htail] at hseg
    obtain rfl := hseg.eq_nil_of_last
    exact h

theorem rotateLeft {t : List Nat} (h : d.Chain (i :: t)) (hsize : 2 ≤ d.size) :
    d.rotateLeft.Chain (t ++ [i]) := by
  have hhead : d.head = some i := h.segment.cons_inv.1
  unfold Deque.rotateLeft
  rw [if_neg (by omega), hhead]
  exact h.unlink_front.linkBack

theorem rotateRight {t : List Nat} (h : d.Chain (t ++ [i])) (hsize : 2 ≤ d.size) :
    d.rotateRight.Chain (i :: t) := by
  have htail : d.tail = some i := h.segment.of_snoc.1
  unfold Deque.rotateRight
  rw [if_neg (by omega), htail]
  exact h.unlink_back.linkFront

theorem setMode (h : d.Chain l) (mode : Mode) : (d.setMode mode).Chain l :=
  ⟨h.segment, h.length_eq, h.perm⟩

theorem setFront (h : d.Chain l) (v : Word) : (d.setFront v).Chain l := by
  unfold Deque.setFront
  split
  · exact ⟨h.segment.frame fun j _ => by simp, h.length_eq, by simpa using h.perm⟩
  · exact h

theorem swapFront (h : d.Chain l) : d.swapFront.Chain l := by
  unfold Deque.swapFront
  split
  · exact h
  · split
    · exact h
    · split
      · exact h
      · split
        · exact h
        · exact ⟨h.segment.frame fun j _ => by simp, h.length_eq, by simpa using h.perm⟩

/-- Releasing every slot leaves the empty container of the same discipline. -/
theorem releaseAll_eq (h : d.Chain l) : d.releaseAll = Deque.empty d.mode := by
  unfold Deque.releaseAll
  split
  · next hempty =>
    simp only [Bool.and_eq_true, Array.isEmpty_iff_size_eq_zero, Option.isNone_iff_eq_none]
      at hempty
    obtain ⟨hslots, hhead⟩ := hempty
    have hnil : l ++ d.free = [] := by
      simpa [hslots] using h.perm
    obtain ⟨rfl, hfree⟩ := List.append_eq_nil_iff.mp hnil
    have htail : d.tail = none := by simpa using h.tail_eq
    obtain ⟨slots, free, head, tail, size, mode⟩ := d
    simp only at hslots hhead htail hfree h ⊢
    have hsize : size = 0 := h.length_eq.symm
    subst hhead htail hfree hsize
    rw [Array.eq_empty_of_size_eq_zero hslots]
    rfl
  · rfl

end Chain

/-! ### Calls -/

namespace Chain

/-- The front of a container with a chain is the value of the chain's first slot. -/
theorem front?_eq (h : d.Chain l) : d.front? = l.head?.bind (valueAt d.slots) := by
  unfold Deque.front?
  rw [h.head_eq]
  cases l with
  | nil => rfl
  | cons i t =>
    show (d.slots[i]?).bind (fun s => some s.value) = valueAt d.slots i
    rw [valueAt, Option.map_eq_bind]
    rfl

theorem rotateLeft_exists (h : d.Chain l) : ∃ l', d.rotateLeft.Chain l' := by
  by_cases hsize : d.size < 2
  · exact ⟨l, (rotateLeft_of_lt hsize).symm ▸ h⟩
  · cases l with
    | nil => simp [← h.length_eq] at hsize
    | cons i t => exact ⟨_, h.rotateLeft (by omega)⟩

theorem rotateRight_exists (h : d.Chain l) : ∃ l', d.rotateRight.Chain l' := by
  by_cases hsize : d.size < 2
  · exact ⟨l, (rotateRight_of_lt hsize).symm ▸ h⟩
  · rcases List.eq_nil_or_concat l with rfl | ⟨t, i, rfl⟩
    · simp [← h.length_eq] at hsize
    · rw [List.concat_eq_append] at h
      exact ⟨_, h.rotateRight (by omega)⟩

/-- Every call keeps a chain. -/
theorem call (h : d.Chain l) (c : Call) : ∃ l', (d.call c).2.Chain l' := by
  cases c with
  | push v =>
    show ∃ l', (d.push v).Chain l'
    unfold Deque.push
    split
    · exact ⟨_, h.pushFront v⟩
    · exact ⟨_, h.pushBack v⟩
  | pushFront v => exact ⟨_, h.pushFront v⟩
  | pushBack v => exact ⟨_, h.pushBack v⟩
  | popFront line =>
    simp only [Deque.call, Deque.popFront, Deque.takeFront?]
    cases d.front? with
    | none => exact ⟨l, h⟩
    | some v => exact ⟨_, h.dropFront⟩
  | peekFront line =>
    simp only [Deque.call]
    split <;> exact ⟨l, h⟩
  | front => exact ⟨l, h⟩
  | back => exact ⟨l, h⟩
  | takeFront =>
    simp only [Deque.call, Deque.takeFront?]
    cases d.front? with
    | none => exact ⟨l, h⟩
    | some v => exact ⟨_, h.dropFront⟩
  | takeBack =>
    simp only [Deque.call, Deque.takeBack?]
    cases d.back? with
    | none => exact ⟨l, h⟩
    | some v => exact ⟨_, h.dropBack⟩
  | swapFront =>
    simp only [Deque.call, Deque.swapFront?]
    cases d.frontPair? with
    | none => exact ⟨l, h⟩
    | some p => exact ⟨_, h.swapFront⟩
  | rotateLeft => exact h.rotateLeft_exists
  | rotateRight => exact h.rotateRight_exists
  | releaseAll =>
    show ∃ l', d.releaseAll.Chain l'
    exact ⟨[], h.releaseAll_eq ▸ Chain.empty d.mode⟩
  | setMode mode => exact ⟨l, h.setMode mode⟩
  | setFront v =>
    simp only [Deque.call, Deque.setFront?]
    cases d.front? with
    | none => exact ⟨l, h⟩
    | some _ => exact ⟨_, h.setFront v⟩

end Chain

/-- Every container that calls build has a chain. -/
theorem Reachable.chain {d : Deque} (h : d.Reachable) : ∃ l, d.Chain l := by
  induction h with
  | empty mode => exact ⟨[], Chain.empty mode⟩
  | call c _ ih =>
    obtain ⟨l, hl⟩ := ih
    exact hl.call c

/-! ### The size of the array

Only an allocation changes the number of slots, and it adds one only when no slot is free. -/

@[simp] theorem size_linkFront (i : Nat) : (d.linkFront i).slots.size = d.slots.size := by
  unfold Deque.linkFront
  split <;> simp

@[simp] theorem size_linkBack (i : Nat) : (d.linkBack i).slots.size = d.slots.size := by
  unfold Deque.linkBack
  split <;> simp

@[simp] theorem size_unlink (i : Nat) : (d.unlink i).slots.size = d.slots.size := by
  unfold Deque.unlink
  split
  · rfl
  · split <;> split <;> simp

@[simp] theorem size_dropFront : d.dropFront.slots.size = d.slots.size := by
  unfold Deque.dropFront Deque.release
  split <;> simp

@[simp] theorem size_dropBack : d.dropBack.slots.size = d.slots.size := by
  unfold Deque.dropBack Deque.release
  split <;> simp

@[simp] theorem size_swapFront : d.swapFront.slots.size = d.slots.size := by
  unfold Deque.swapFront
  repeat' split
  all_goals simp

@[simp] theorem size_setFront (v : Word) : (d.setFront v).slots.size = d.slots.size := by
  unfold Deque.setFront
  split <;> simp

@[simp] theorem size_rotateLeft : d.rotateLeft.slots.size = d.slots.size := by
  unfold Deque.rotateLeft
  split
  · rfl
  · split <;> simp

@[simp] theorem size_rotateRight : d.rotateRight.slots.size = d.slots.size := by
  unfold Deque.rotateRight
  split
  · rfl
  · split <;> simp

end StackQueue.Deque
