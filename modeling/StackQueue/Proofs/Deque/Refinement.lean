import Mathlib.Data.List.Basic
import StackQueue.Contents
import StackQueue.Proofs.Deque.Invariant

/-! The container refines its contents. On a container with a chain, every operation changes
the values read from the front as the rule on a plain list says, and every call of the interface
answers as the same call on the contents does. Calls keep a chain, so this holds after every
sequence of calls from an empty container.

Only an allocation and the writes change a slot's value; linking, unlinking and releasing move
slots on and off the chain and leave every value where it is. -/

namespace StackQueue.Deque

variable {d : Deque} {l : List Nat}

/-! ### Values and discipline after an operation -/

@[simp] theorem valueAt_linkFront (i : Nat) : valueAt (d.linkFront i).slots = valueAt d.slots := by
  funext j
  unfold Deque.linkFront
  split <;> simp

@[simp] theorem valueAt_linkBack (i : Nat) : valueAt (d.linkBack i).slots = valueAt d.slots := by
  funext j
  unfold Deque.linkBack
  split <;> simp

@[simp] theorem valueAt_unlink (i : Nat) : valueAt (d.unlink i).slots = valueAt d.slots := by
  funext j
  unfold Deque.unlink
  split
  · rfl
  · split <;> split <;> simp

@[simp] theorem valueAt_dropFront : valueAt d.dropFront.slots = valueAt d.slots := by
  unfold Deque.dropFront Deque.release
  split <;> simp

@[simp] theorem valueAt_dropBack : valueAt d.dropBack.slots = valueAt d.slots := by
  unfold Deque.dropBack Deque.release
  split <;> simp

@[simp] theorem valueAt_rotateLeft : valueAt d.rotateLeft.slots = valueAt d.slots := by
  unfold Deque.rotateLeft
  split
  · rfl
  · split <;> simp

@[simp] theorem valueAt_rotateRight : valueAt d.rotateRight.slots = valueAt d.slots := by
  unfold Deque.rotateRight
  split
  · rfl
  · split <;> simp

@[simp] theorem mode_linkFront (i : Nat) : (d.linkFront i).mode = d.mode := by
  unfold Deque.linkFront
  split <;> rfl

@[simp] theorem mode_linkBack (i : Nat) : (d.linkBack i).mode = d.mode := by
  unfold Deque.linkBack
  split <;> rfl

@[simp] theorem mode_unlink (i : Nat) : (d.unlink i).mode = d.mode := by
  unfold Deque.unlink
  split
  · rfl
  · split <;> split <;> rfl

@[simp] theorem mode_pushFront (v : Word) : (d.pushFront v).mode = d.mode := by
  show ((d.allocate v).1.linkFront _).mode = d.mode
  simp

@[simp] theorem mode_pushBack (v : Word) : (d.pushBack v).mode = d.mode := by
  show ((d.allocate v).1.linkBack _).mode = d.mode
  simp

@[simp] theorem mode_dropFront : d.dropFront.mode = d.mode := by
  unfold Deque.dropFront Deque.release
  split <;> simp

@[simp] theorem mode_dropBack : d.dropBack.mode = d.mode := by
  unfold Deque.dropBack Deque.release
  split <;> simp

@[simp] theorem mode_swapFront : d.swapFront.mode = d.mode := by
  unfold Deque.swapFront
  repeat' split
  all_goals rfl

@[simp] theorem mode_setFront (v : Word) : (d.setFront v).mode = d.mode := by
  unfold Deque.setFront
  split <;> rfl

@[simp] theorem mode_rotateLeft : d.rotateLeft.mode = d.mode := by
  unfold Deque.rotateLeft
  split
  · rfl
  · split <;> simp

@[simp] theorem mode_rotateRight : d.rotateRight.mode = d.mode := by
  unfold Deque.rotateRight
  split
  · rfl
  · split <;> simp

/-! ### The values after an operation -/


/-- Exchanging the values of the first two slots of a list exchanges its first two values. -/
theorem filterMap_valueAt_swap {slots : Array Slot} {i j : Nat} {t : List Nat} {a b : Word}
    (hij : i ≠ j) (hit : i ∉ t) (hjt : j ∉ t) (ha : valueAt slots i = some a)
    (hb : valueAt slots j = some b) :
    (i :: j :: t).filterMap (valueAt ((slots.modify i fun w => { w with value := b }).modify j
      fun w => { w with value := a })) = b :: a :: t.filterMap (valueAt slots) := by
  have hi : valueAt ((slots.modify i fun w => { w with value := b }).modify j
      fun w => { w with value := a }) i = some b := by
    simp [Ne.symm hij, ha]
  have hj : valueAt ((slots.modify i fun w => { w with value := b }).modify j
      fun w => { w with value := a }) j = some a := by
    simp [hij, hb]
  rw [List.filterMap_cons_some hi, List.filterMap_cons_some hj]
  congr 2
  refine List.filterMap_congr fun k hk => ?_
  have hik : i ≠ k := fun e => hit (e ▸ hk)
  have hjk : j ≠ k := fun e => hjt (e ▸ hk)
  simp [hik, hjk]

/-- Writing over the value of the first slot of a list writes over its first value. -/
theorem filterMap_valueAt_setFront {slots : Array Slot} {i : Nat} {t : List Nat} {a : Word}
    (hit : i ∉ t) (ha : valueAt slots i = some a) (v : Word) :
    (i :: t).filterMap (valueAt (slots.modify i fun w => { w with value := v })) =
      v :: t.filterMap (valueAt slots) := by
  have hi : valueAt (slots.modify i fun w => { w with value := v }) i = some v := by
    simp [ha]
  rw [List.filterMap_cons_some hi]
  congr 1
  refine List.filterMap_congr fun k hk => ?_
  have hik : i ≠ k := fun e => hit (e ▸ hk)
  simp [hik]

namespace Detached

variable {i : Nat}

theorem toList_eq (h : d.Detached l i) : d.toList = l.filterMap (valueAt d.slots) :=
  h.release.toList_eq

/-- Linking a detached slot at the front puts its value first. -/
theorem toList_linkFront (h : d.Detached l i) {v : Word} (hv : valueAt d.slots i = some v) :
    (d.linkFront i).toList = v :: d.toList := by
  rw [h.linkFront.toList_eq, valueAt_linkFront, List.filterMap_cons_some hv, h.toList_eq]

/-- Linking a detached slot at the back puts its value last. -/
theorem toList_linkBack (h : d.Detached l i) {v : Word} (hv : valueAt d.slots i = some v) :
    (d.linkBack i).toList = d.toList ++ [v] := by
  rw [h.linkBack.toList_eq, valueAt_linkBack, List.filterMap_append, List.filterMap_cons_some hv,
    List.filterMap_nil, h.toList_eq]

end Detached

namespace Chain

theorem valueAt_some (h : d.Chain l) {j : Nat} (hj : j ∈ l) : ∃ v, valueAt d.slots j = some v :=
  Option.isSome_iff_exists.mp (isSome_valueAt.mpr (h.lt_size hj))

/-- An allocation leaves the values read from the front as they were. -/
theorem toList_allocate (h : d.Chain l) (v : Word) : (d.allocate v).1.toList = d.toList := by
  obtain ⟨hdet, -, hother, -⟩ := h.allocate v
  have hil : (d.allocate v).2 ∉ l := fun hm => hdet.not_mem (List.mem_append_left _ hm)
  rw [hdet.toList_eq, h.toList_eq]
  exact List.filterMap_congr fun j hj => hother j fun e => hil (e ▸ hj)

theorem toList_pushFront (h : d.Chain l) (v : Word) : (d.pushFront v).toList = v :: d.toList := by
  obtain ⟨hdet, hval, -, -⟩ := h.allocate v
  show ((d.allocate v).1.linkFront (d.allocate v).2).toList = _
  rw [hdet.toList_linkFront hval, h.toList_allocate v]

theorem toList_pushBack (h : d.Chain l) (v : Word) :
    (d.pushBack v).toList = d.toList ++ [v] := by
  obtain ⟨hdet, hval, -, -⟩ := h.allocate v
  show ((d.allocate v).1.linkBack (d.allocate v).2).toList = _
  rw [hdet.toList_linkBack hval, h.toList_allocate v]

theorem toList_dropFront (h : d.Chain l) : d.dropFront.toList = d.toList.tail := by
  rw [h.dropFront.toList_eq, h.toList_eq]
  cases l with
  | nil => rfl
  | cons i t =>
    obtain ⟨v, hv⟩ := h.valueAt_some List.mem_cons_self
    rw [valueAt_dropFront, List.filterMap_cons_some hv, List.tail_cons, List.tail_cons]

theorem toList_dropBack (h : d.Chain l) : d.dropBack.toList = d.toList.dropLast := by
  rw [h.dropBack.toList_eq, h.toList_eq]
  rcases List.eq_nil_or_concat l with rfl | ⟨t, i, rfl⟩
  · rfl
  · rw [List.concat_eq_append] at h ⊢
    obtain ⟨v, hv⟩ := h.valueAt_some (List.mem_append_right _ List.mem_cons_self)
    rw [valueAt_dropBack, List.filterMap_append, List.filterMap_cons_some hv, List.filterMap_nil,
      List.dropLast_concat, List.dropLast_concat]

theorem toList_rotateLeft (h : d.Chain l) :
    d.rotateLeft.toList = (Contents.rotateLeft ⟨d.toList, d.mode⟩).values := by
  by_cases hsize : d.size < 2
  · rw [rotateLeft_of_lt hsize, h.toList_eq]
    match l, h with
    | [], _ => rfl
    | [i], h =>
      obtain ⟨a, ha⟩ := h.valueAt_some List.mem_cons_self
      rw [List.filterMap_cons_some ha]
      rfl
    | i :: j :: t, h =>
      have hlen := h.length_eq
      simp only [List.length_cons] at hlen
      omega
  · match l, h with
    | [], h => simp [← h.length_eq] at hsize
    | [i], h => simp [← h.length_eq] at hsize
    | i :: j :: t, h =>
      obtain ⟨a, ha⟩ := h.valueAt_some List.mem_cons_self
      obtain ⟨b, hb⟩ := h.valueAt_some (List.mem_cons_of_mem _ List.mem_cons_self)
      rw [(h.rotateLeft (by omega)).toList_eq, h.toList_eq, valueAt_rotateLeft]
      simp only [List.filterMap_cons_some ha, List.filterMap_cons_some hb, List.filterMap_append,
        List.filterMap_nil, Contents.rotateLeft, List.cons_append]

theorem toList_rotateRight (h : d.Chain l) :
    d.rotateRight.toList = (Contents.rotateRight ⟨d.toList, d.mode⟩).values := by
  by_cases hsize : d.size < 2
  · rw [rotateRight_of_lt hsize, h.toList_eq]
    match l, h with
    | [], _ => rfl
    | [i], h =>
      obtain ⟨a, ha⟩ := h.valueAt_some List.mem_cons_self
      rw [List.filterMap_cons_some ha]
      rfl
    | i :: j :: t, h =>
      have hlen := h.length_eq
      simp only [List.length_cons] at hlen
      omega
  · rcases List.eq_nil_or_concat l with rfl | ⟨t, i, rfl⟩
    · simp [← h.length_eq] at hsize
    · rw [List.concat_eq_append] at h
      obtain ⟨j, t, rfl⟩ : ∃ j t', t = j :: t' := by
        refine List.exists_cons_of_ne_nil fun ht => ?_
        have hlen := h.length_eq
        simp only [ht, List.nil_append, List.length_singleton] at hlen
        omega
      obtain ⟨a, ha⟩ := h.valueAt_some (List.mem_append_right _ List.mem_cons_self)
      obtain ⟨b, hb⟩ := h.valueAt_some (List.mem_append_left _ List.mem_cons_self)
      rw [(h.rotateRight (by omega)).toList_eq, h.toList_eq, valueAt_rotateRight,
        List.filterMap_cons_some ha, List.filterMap_append, List.filterMap_cons_some ha,
        List.filterMap_nil, List.filterMap_cons_some hb,
        Contents.rotateRight_append (List.cons_ne_nil _ _)]

/-- The only slot of a chain of one exists and links forward to nothing. -/
theorem exists_slot_singleton {i : Nat} (h : d.Chain [i]) :
    ∃ s, d.slots[i]? = some s ∧ s.next = none := by
  obtain ⟨-, f, hlinks, hrest⟩ := h.segment.cons_inv
  obtain ⟨rfl, -⟩ := hrest.nil_inv
  obtain ⟨s, hs, hsl⟩ := Option.map_eq_some_iff.mp hlinks
  exact ⟨s, hs, (Prod.mk.inj hsl).2⟩

/-- The first two slots of a chain exist, and the first links forward to the second. -/
theorem exists_slots_two {i j : Nat} {t : List Nat} (h : d.Chain (i :: j :: t)) :
    ∃ s u, d.slots[i]? = some s ∧ s.next = some j ∧ d.slots[j]? = some u := by
  obtain ⟨-, f, hlinks, hrest⟩ := h.segment.cons_inv
  obtain ⟨rfl, -, -, -⟩ := hrest.cons_inv
  obtain ⟨s, hs, hsl⟩ := Option.map_eq_some_iff.mp hlinks
  have hj : j < d.slots.size := h.lt_size (List.mem_cons_of_mem _ List.mem_cons_self)
  obtain ⟨u, hu⟩ : ∃ u, d.slots[j]? = some u :=
    Option.isSome_iff_exists.mp (by simpa using hj)
  exact ⟨s, u, hs, (Prod.mk.inj hsl).2, hu⟩

theorem swapFront_eq {i j : Nat} {s u : Slot} (hhead : d.head = some i)
    (hs : d.slots[i]? = some s) (hnext : s.next = some j) (hu : d.slots[j]? = some u) :
    d.swapFront = { d with
      slots := (d.slots.modify i fun w => { w with value := u.value }).modify j
        fun w => { w with value := s.value } } := by
  unfold Deque.swapFront
  simp only [hhead, hs, hnext, hu]

theorem toList_swapFront (h : d.Chain l) :
    d.swapFront.toList = (Contents.swapFront ⟨d.toList, d.mode⟩).values := by
  have hhead := h.head_eq
  match l, h with
  | [], h =>
    have hd : d.swapFront = d := by
      unfold Deque.swapFront
      rw [hhead]
      rfl
    rw [hd, h.toList_eq]
    rfl
  | [i], h =>
    obtain ⟨s, hs, hnext⟩ := h.exists_slot_singleton
    have hd : d.swapFront = d := by
      unfold Deque.swapFront
      simp only [hhead, List.head?_cons, hs, hnext]
    obtain ⟨a, ha⟩ := h.valueAt_some List.mem_cons_self
    rw [hd, h.toList_eq, List.filterMap_cons_some ha]
    rfl
  | i :: j :: t, h =>
    obtain ⟨s, u, hs, hnext, hu⟩ := h.exists_slots_two
    have hnodup := (List.nodup_append.mp h.nodup).1
    have hij : i ≠ j := fun e => (List.nodup_cons.mp hnodup).1 (e ▸ List.mem_cons_self)
    have hit : i ∉ t := fun hm => (List.nodup_cons.mp hnodup).1 (List.mem_cons_of_mem _ hm)
    have hjt : j ∉ t := (List.nodup_cons.mp (List.nodup_cons.mp hnodup).2).1
    have hva : valueAt d.slots i = some s.value := by simp [valueAt, hs]
    have hvb : valueAt d.slots j = some u.value := by simp [valueAt, hu]
    rw [h.swapFront.toList_eq, h.toList_eq, swapFront_eq hhead hs hnext hu,
      List.filterMap_cons_some hva, List.filterMap_cons_some hvb]
    exact filterMap_valueAt_swap hij hit hjt hva hvb

theorem toList_setFront (h : d.Chain l) (v : Word) :
    (d.setFront v).toList = (Contents.setFront ⟨d.toList, d.mode⟩ v).values := by
  have hhead := h.head_eq
  cases l with
  | nil =>
    have hd : d.setFront v = d := by
      unfold Deque.setFront
      rw [hhead]
      rfl
    rw [hd, h.toList_eq]
    rfl
  | cons i t =>
    have hit : i ∉ t := (List.nodup_cons.mp (List.nodup_append.mp h.nodup).1).1
    obtain ⟨a, ha⟩ := h.valueAt_some List.mem_cons_self
    rw [(h.setFront v).toList_eq, h.toList_eq, List.filterMap_cons_some ha]
    unfold Deque.setFront
    rw [hhead]
    exact filterMap_valueAt_setFront hit ha v

/-! ### Reads -/

theorem front?_eq_head? (h : d.Chain l) : d.front? = d.toList.head? := by
  rw [h.front?_eq, h.toList_eq]
  cases l with
  | nil => rfl
  | cons i t =>
    obtain ⟨a, ha⟩ := h.valueAt_some List.mem_cons_self
    rw [List.filterMap_cons_some ha, List.head?_cons, List.head?_cons, Option.bind_some, ha]

theorem back?_eq_getLast? (h : d.Chain l) : d.back? = d.toList.getLast? := by
  unfold Deque.back?
  rw [h.tail_eq, h.toList_eq]
  rcases List.eq_nil_or_concat l with rfl | ⟨t, i, rfl⟩
  · rfl
  · rw [List.concat_eq_append] at h ⊢
    obtain ⟨a, ha⟩ := h.valueAt_some (List.mem_append_right _ List.mem_cons_self)
    obtain ⟨s, hs, rfl⟩ := Option.map_eq_some_iff.mp ha
    rw [List.filterMap_append, List.filterMap_cons_some ha, List.filterMap_nil,
      List.getLast?_concat, List.getLast?_concat]
    simp [hs]

theorem frontPair?_eq (h : d.Chain l) :
    d.frontPair? = match d.toList with
      | a :: b :: _ => some (a, b)
      | _ => none := by
  have hhead := h.head_eq
  unfold Deque.frontPair?
  rw [hhead, h.toList_eq]
  match l, h with
  | [], _ => rfl
  | [i], h =>
    obtain ⟨s, hs, hnext⟩ := h.exists_slot_singleton
    obtain ⟨a, ha⟩ := h.valueAt_some List.mem_cons_self
    simp [hs, hnext, List.filterMap_cons_some ha]
  | i :: j :: t, h =>
    obtain ⟨s, u, hs, hnext, hu⟩ := h.exists_slots_two
    have hva : valueAt d.slots i = some s.value := by simp [valueAt, hs]
    have hvb : valueAt d.slots j = some u.value := by simp [valueAt, hu]
    simp [hs, hnext, hu, List.filterMap_cons_some hva, List.filterMap_cons_some hvb]

end Chain

/-! ### Contents after an operation -/

namespace Chain

theorem contents_pushFront (h : d.Chain l) (v : Word) :
    (d.pushFront v).contents = d.contents.pushFront v := by
  simp [Deque.contents, Contents.pushFront, h.toList_pushFront]

theorem contents_pushBack (h : d.Chain l) (v : Word) :
    (d.pushBack v).contents = d.contents.pushBack v := by
  simp [Deque.contents, Contents.pushBack, h.toList_pushBack]

theorem contents_push (h : d.Chain l) (v : Word) : (d.push v).contents = d.contents.push v := by
  have hmode : d.contents.mode = d.mode := rfl
  unfold Deque.push Contents.push
  rw [hmode]
  cases d.mode with
  | stack => exact h.contents_pushFront v
  | queue => exact h.contents_pushBack v

theorem contents_dropFront (h : d.Chain l) : d.dropFront.contents = d.contents.dropFront := by
  simp [Deque.contents, Contents.dropFront, h.toList_dropFront]

theorem contents_dropBack (h : d.Chain l) : d.dropBack.contents = d.contents.dropBack := by
  simp [Deque.contents, Contents.dropBack, h.toList_dropBack]

theorem contents_swapFront (h : d.Chain l) : d.swapFront.contents = d.contents.swapFront := by
  show _ = (⟨(Contents.swapFront _).values, (Contents.swapFront _).mode⟩ : Contents)
  simp only [Deque.contents, h.toList_swapFront, mode_swapFront, Contents.mode_swapFront]

theorem contents_setFront (h : d.Chain l) (v : Word) :
    (d.setFront v).contents = d.contents.setFront v := by
  show _ = (⟨(Contents.setFront _ v).values, (Contents.setFront _ v).mode⟩ : Contents)
  simp only [Deque.contents, h.toList_setFront, mode_setFront, Contents.mode_setFront]

theorem contents_rotateLeft (h : d.Chain l) : d.rotateLeft.contents = d.contents.rotateLeft := by
  show _ = (⟨(Contents.rotateLeft _).values, (Contents.rotateLeft _).mode⟩ : Contents)
  simp only [Deque.contents, h.toList_rotateLeft, mode_rotateLeft, Contents.mode_rotateLeft]

theorem contents_rotateRight (h : d.Chain l) :
    d.rotateRight.contents = d.contents.rotateRight := by
  show _ = (⟨(Contents.rotateRight _).values, (Contents.rotateRight _).mode⟩ : Contents)
  simp only [Deque.contents, h.toList_rotateRight, mode_rotateRight, Contents.mode_rotateRight]

theorem contents_releaseAll (h : d.Chain l) : d.releaseAll.contents = d.contents.clear := by
  rw [h.releaseAll_eq]
  rfl

/-! ### Calls -/

/-- On a container with a chain, every call answers as the same call on its contents, and leaves
the contents that call gives. -/
theorem call_contents (h : d.Chain l) (c : Call) :
    ((d.call c).1, (d.call c).2.contents) = d.contents.call c := by
  have hfront := h.front?_eq_head?
  cases c with
  | push v => simp [Deque.call, Contents.call, h.contents_push]
  | pushFront v => simp [Deque.call, Contents.call, h.contents_pushFront]
  | pushBack v => simp [Deque.call, Contents.call, h.contents_pushBack]
  | popFront line =>
    simp only [Deque.call, Deque.popFront, Deque.takeFront?, Contents.call, hfront]
    cases hv : d.toList with
    | nil => simp [Deque.contents, hv]
    | cons v rest => simp [Deque.contents, Contents.dropFront, h.toList_dropFront, hv]
  | peekFront line =>
    simp only [Deque.call, Deque.peekFront, Contents.call, hfront]
    cases hv : d.toList with
    | nil => simp [Deque.contents, hv]
    | cons v rest => simp [Deque.contents, hv]
  | front => simp [Deque.call, Contents.call, Deque.contents, hfront]
  | back => simp [Deque.call, Contents.call, Deque.contents, h.back?_eq_getLast?]
  | takeFront =>
    simp only [Deque.call, Deque.takeFront?, Contents.call, hfront]
    cases hv : d.toList with
    | nil => simp [Deque.contents, Contents.dropFront, hv]
    | cons v rest => simp [Deque.contents, Contents.dropFront, h.toList_dropFront, hv]
  | takeBack =>
    simp only [Deque.call, Deque.takeBack?, Contents.call, h.back?_eq_getLast?]
    cases hv : d.toList.getLast? with
    | none =>
      have hnil : d.toList = [] := List.getLast?_eq_none_iff.mp hv
      simp [Deque.contents, Contents.dropBack, hnil]
    | some v => simp [Deque.contents, Contents.dropBack, h.toList_dropBack, hv]
  | swapFront =>
    simp only [Deque.call, Deque.swapFront?, Contents.call, h.frontPair?_eq]
    rcases hv : d.toList with _ | ⟨a, _ | ⟨b, rest⟩⟩
    · simp [Deque.contents, Contents.swapFront, hv]
    · simp [Deque.contents, Contents.swapFront, hv]
    · simp only [h.contents_swapFront]
      simp [Deque.contents, hv]
  | rotateLeft => simp [Deque.call, Contents.call, h.contents_rotateLeft]
  | rotateRight => simp [Deque.call, Contents.call, h.contents_rotateRight]
  | releaseAll => simp [Deque.call, Contents.call, h.contents_releaseAll]
  | setMode mode => rfl
  | setFront v =>
    simp only [Deque.call, Deque.setFront?, Contents.call, hfront]
    cases hv : d.toList with
    | nil => simp [Deque.contents, Contents.setFront, hv]
    | cons a rest =>
      have hset := h.toList_setFront v
      rw [hv] at hset
      simp [Deque.contents, hv, hset, Contents.setFront]

end Chain

/-- After any calls from an empty container, a call answers as the same call on the contents
does, and leaves the contents that call gives. -/
theorem call_refines (hd : d.Reachable) (c : Call) :
    ((d.call c).1, (d.call c).2.contents) = d.contents.call c := by
  obtain ⟨l, h⟩ := hd.chain
  exact h.call_contents c

/-- On a queue holding 1 and 2, a rotation to the right answers as on the list `[1, 2]`. -/
theorem rotateRight_refines_on_queue :
    let d := (((Deque.empty .queue).call (.push 1)).2.call (.push 2)).2
    d.Reachable ∧
      ((d.call .rotateRight).1, (d.call .rotateRight).2.contents) = d.contents.call .rotateRight :=
  have h : Deque.Reachable _ := .call (.push 2) (.call (.push 1) (.empty .queue))
  ⟨h, call_refines h .rotateRight⟩

end StackQueue.Deque
