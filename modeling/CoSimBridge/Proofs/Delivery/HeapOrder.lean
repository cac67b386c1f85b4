import Mathlib
import CoSimBridge.Delivery.Heap
/-!
# Heaps keep their order

Compared by a key into a linear order, `push` and `pop?` keep every element at or after its
parent (`IsHeap`), so the root is a least element (`IsHeap.root_le`). Both only move elements:
`push` adds one and `pop?` takes the root away. A sift compares only the elements it holds, so a
comparison that agrees with the key on them moves them the same way (`push_congr`,
`pop?_congr`): this is how heaps of buckets, compared by timestamps that are doubles, inherit the
laws.

The order facts are those of a sift with a hole: `UpOrder` and `DownOrder` say which edges are in
order while an element travels, and one step of a sift moves the hole and keeps them.
-/

namespace CoSimBridge.Delivery.Heap

set_option autoImplicit false

variable {α β : Type} [LinearOrder β]

/-- Comparison by a key. -/
def keyLt (f : α → β) (x y : α) : Bool := decide (f x < f y)

@[simp] theorem keyLt_eq_true {f : α → β} {x y : α} : keyLt f x y = true ↔ f x < f y :=
  decide_eq_true_iff

theorem parent_lt {j : Nat} (h : 0 < j) : parent j < j := by
  unfold parent; omega

theorem swapIfInBounds_perm (a : Array α) (i j : Nat) : (a.swapIfInBounds i j).Perm a := by
  rw [Array.swapIfInBounds_def]
  split
  · split
    · exact Array.swap_perm ‹_› ‹_›
    · exact .rfl
  · exact .rfl

theorem getElem?_swapIfInBounds {a : Array α} {i j : Nat} (hi : i < a.size) (hj : j < a.size)
    (k : Nat) : (a.swapIfInBounds i j)[k]? = a[Equiv.swap i j k]? := by
  rw [Array.swapIfInBounds_def, dif_pos hi, dif_pos hj, Array.getElem?_swap]
  by_cases hkj : k = j
  · subst hkj; simp
  · by_cases hki : k = i
    · subst hki; simp [Ne.symm hkj]
    · simp [Equiv.swap_apply_of_ne_of_ne hki hkj, Ne.symm hki, Ne.symm hkj]

/-- The element at `c` is at or after the element at its parent. -/
def EdgeOrdered (f : α → β) (a : Array α) (c : Nat) : Prop :=
  ∀ x p, a[c]? = some x → a[parent c]? = some p → f p ≤ f x

/-- Every element is at or after its parent. -/
def IsHeap (f : α → β) (a : Array α) : Prop :=
  ∀ c, 0 < c → EdgeOrdered f a c

/-- What moving the element at `j` up needs: every edge but `j`'s own is in order, and the
children of `j` are at or after the parent of `j`. -/
structure UpOrder (f : α → β) (a : Array α) (j : Nat) : Prop where
  except : ∀ c, 0 < c → c ≠ j → EdgeOrdered f a c
  grand : 0 < j → ∀ c, 0 < c → parent c = j → ∀ x g, a[c]? = some x → a[parent j]? = some g →
    f g ≤ f x

/-- What moving the element at `i` down among the first `n` positions needs: every edge there
but those from the children of `i` is in order, and those children are at or after the parent
of `i`. -/
structure DownOrder (f : α → β) (a : Array α) (n i : Nat) : Prop where
  except : ∀ c, 0 < c → c < n → parent c ≠ i → EdgeOrdered f a c
  grand : 0 < i → ∀ c, 0 < c → c < n → parent c = i → ∀ x g, a[c]? = some x →
    a[parent i]? = some g → f g ≤ f x

section Up

variable {f : α → β} {a : Array α} {j : Nat}

theorem UpOrder.finish (h : UpOrder f a j) (hj : 0 < j → EdgeOrdered f a j) : IsHeap f a := by
  intro c hc
  by_cases hcj : c = j
  · subst hcj; exact hj hc
  · exact h.except c hc hcj

/-- One step up: the element at `j` trades places with its parent, which is after it. -/
theorem UpOrder.move {x p : α} (h : UpOrder f a j) (hj : 0 < j) (hx : a[j]? = some x)
    (hp : a[parent j]? = some p) (hlt : f x < f p) :
    UpOrder f (a.swapIfInBounds (parent j) j) (parent j) := by
  have hjs : j < a.size := (Array.getElem?_eq_some_iff.mp hx).1
  have hpj : parent j < j := parent_lt hj
  have get := getElem?_swapIfInBounds (Nat.lt_trans hpj hjs) hjs
  constructor
  · intro c hc hcp y q hy hq
    rw [get] at hy hq
    by_cases hcj : c = j
    · subst hcj
      rw [Equiv.swap_apply_right, hp] at hy
      rw [Equiv.swap_apply_left, hx] at hq
      cases hy; cases hq
      exact hlt.le
    · rw [Equiv.swap_apply_of_ne_of_ne hcp hcj] at hy
      by_cases hpc : parent c = j
      · -- `c` was a child of `j`: it now sits under the old parent of `j`
        rw [hpc, Equiv.swap_apply_right, hp] at hq
        cases hq
        exact h.grand hj c hc hpc y p hy hp
      · by_cases hpp : parent c = parent j
        · -- `c` is the sibling of `j`: it now sits under the element that moved up
          rw [hpp, Equiv.swap_apply_left, hx] at hq
          cases hq
          have hpy : f p ≤ f y := h.except c hc hcj y p hy (hpp ▸ hp)
          exact (hlt.trans_le hpy).le
        · rw [Equiv.swap_apply_of_ne_of_ne hpp hpc] at hq
          exact h.except c hc hcj y q hy hq
  · intro hp0 c hc hpc y g hy hg
    have hpp : parent (parent j) < parent j := parent_lt hp0
    rw [get, Equiv.swap_apply_of_ne_of_ne (by omega) (by omega)] at hg
    have hedge : f g ≤ f p := h.except (parent j) hp0 (by omega) p g hp hg
    rw [get] at hy
    by_cases hcj : c = j
    · subst hcj
      rw [Equiv.swap_apply_right, hp] at hy
      cases hy
      exact hedge
    · have hcp : c ≠ parent j := by
        have := parent_lt hc
        omega
      rw [Equiv.swap_apply_of_ne_of_ne hcp hcj] at hy
      exact hedge.trans (h.except c hc hcj y p hy (hpc ▸ hp))

end Up

theorem siftUp_perm (lt : α → α → Bool) (a : Array α) (j : Nat) : (siftUp lt a j).Perm a := by
  induction a, j using siftUp.induct lt with
  | case1 a => rw [siftUp, dif_pos rfl]
  | case2 a j hj x p hp hx hlt ih =>
    rw [siftUp, dif_neg hj, hx, hp]
    simp only [hlt, if_true]
    exact ih.trans (swapIfInBounds_perm a _ _)
  | case3 a j hj x p hp hx hlt =>
    rw [siftUp, dif_neg hj, hx, hp]
    simp only [hlt, Bool.false_eq_true, if_false]
    exact .rfl
  | case4 a j hj hnone =>
    rw [siftUp, dif_neg hj]
    split
    · exact absurd (hnone _ _ ‹_› ‹_›) id
    · exact .rfl

/-- Moving an element up from a hole with `UpOrder` ends in a heap. -/
theorem siftUp_isHeap {f : α → β} {a : Array α} {j : Nat} (h : UpOrder f a j) :
    IsHeap f (siftUp (keyLt f) a j) := by
  induction a, j using siftUp.induct (keyLt f) with
  | case1 a =>
    rw [siftUp, dif_pos rfl]
    exact h.finish (fun h0 => absurd h0 (Nat.lt_irrefl 0))
  | case2 a j hj x p hp hx hlt ih =>
    rw [siftUp, dif_neg hj, hx, hp]
    simp only [hlt, if_true]
    exact ih (h.move (Nat.pos_of_ne_zero hj) hx hp (keyLt_eq_true.mp hlt))
  | case3 a j hj x p hp hx hlt =>
    rw [siftUp, dif_neg hj, hx, hp]
    simp only [hlt, Bool.false_eq_true, if_false]
    refine h.finish (fun _ y q hy hq => ?_)
    rw [hx] at hy; rw [hp] at hq
    cases hy; cases hq
    simpa using hlt
  | case4 a j hj hnone =>
    rw [siftUp, dif_neg hj]
    split
    · exact absurd (hnone _ _ ‹_› ‹_›) id
    · exact h.finish (fun _ y q hy hq => absurd (hnone y q hy hq) id)

/-- The child of `i` that moving down compares with: the right one when it is among the first
`n` and strictly before the left one, else the left one. -/
def downChild (lt : α → α → Bool) (a : Array α) (n i : Nat) : Nat :=
  child (2 * i + 1) (match a[2 * i + 1 + 1]?, a[2 * i + 1]? with
    | some r, some x => decide (2 * i + 1 + 1 < n) && lt r x
    | _, _ => false)

theorem siftDown_eq (lt : α → α → Bool) (a : Array α) (n i : Nat) :
    siftDown lt a n i =
      if _ : 2 * i + 1 < n then
        match a[downChild lt a n i]?, a[i]? with
        | some y, some x =>
          if lt y x then siftDown lt (a.swapIfInBounds i (downChild lt a n i)) n (downChild lt a n i)
          else a
        | _, _ => a
      else a := by
  rw [siftDown]; rfl

theorem downChild_cases (lt : α → α → Bool) (a : Array α) (n i : Nat) :
    downChild lt a n i = 2 * i + 1 ∨ (downChild lt a n i = 2 * i + 2 ∧ 2 * i + 2 < n) := by
  unfold downChild
  split
  · rename_i r x _ _
    cases h : decide (2 * i + 1 + 1 < n) && lt r x
    · exact .inl rfl
    · simp only [Bool.and_eq_true, decide_eq_true_eq] at h
      exact .inr ⟨rfl, h.1⟩
  · exact .inl rfl

section Down

variable {lt : α → α → Bool} {a : Array α} {n i : Nat}

theorem parent_downChild : parent (downChild lt a n i) = i := by
  rcases downChild_cases lt a n i with h | ⟨h, _⟩ <;> rw [h] <;> unfold parent <;> omega

theorem lt_downChild : i < downChild lt a n i := by
  rcases downChild_cases lt a n i with h | ⟨h, _⟩ <;> omega

theorem downChild_lt (hl : 2 * i + 1 < n) : downChild lt a n i < n := by
  rcases downChild_cases lt a n i with h | ⟨h, _⟩ <;> omega

/-- The child that moving down compares with is at or before every child among the first
`n`. -/
theorem downChild_le {f : α → β} {y : α}
    (hy : a[downChild (keyLt f) a n i]? = some y) {d : Nat} (hd : 0 < d) (hdn : d < n)
    (hpd : parent d = i) {z : α} (hz : a[d]? = some z) : f y ≤ f z := by
  have hd' : d = 2 * i + 1 ∨ d = 2 * i + 1 + 1 := by unfold parent at hpd; omega
  unfold downChild at hy
  split at hy
  · rename_i r x hr hx
    cases hb : decide (2 * i + 1 + 1 < n) && keyLt f r x
    · -- the left child: the right one, if among the first `n`, is not before it
      rw [hb, child, if_neg Bool.false_ne_true, hx] at hy
      cases hy
      rcases hd' with rfl | rfl
      · rw [hx] at hz; cases hz; exact le_rfl
      · rw [hr] at hz; cases hz
        simp only [Bool.and_eq_false_iff, decide_eq_false_iff_not, hdn, not_true_eq_false,
          false_or] at hb
        exact not_lt.mp (fun h => absurd (keyLt_eq_true.mpr h) (by simp [hb]))
    · rw [hb, child, if_pos rfl, hr] at hy
      cases hy
      simp only [Bool.and_eq_true, keyLt_eq_true] at hb
      rcases hd' with rfl | rfl
      · rw [hx] at hz; cases hz; exact hb.2.le
      · rw [hr] at hz; cases hz; exact le_rfl
  · rename_i hnone
    rw [child, if_neg Bool.false_ne_true] at hy
    rcases hd' with rfl | rfl
    · rw [hy] at hz; cases hz; exact le_rfl
    · exact absurd (hnone z y hz hy) id

end Down

/-- Among the first `n` positions, every element is at or after its parent. -/
def HeapBelow (f : α → β) (a : Array α) (n : Nat) : Prop :=
  ∀ c, 0 < c → c < n → EdgeOrdered f a c

section DownOrder

variable {f : α → β} {a : Array α} {n i : Nat}

theorem DownOrder.finish (h : DownOrder f a n i)
    (hstop : ∀ d, 0 < d → d < n → parent d = i → EdgeOrdered f a d) : HeapBelow f a n := by
  intro c hc hcn
  by_cases hpc : parent c = i
  · exact hstop c hc hcn hpc
  · exact h.except c hc hcn hpc

/-- One step down: the element at `i` trades places with its child `c`, which is before it and at
or before every child of `i`. -/
theorem DownOrder.move {c : Nat} {x y : α} (h : DownOrder f a n i) (hn : n ≤ a.size)
    (hpc : parent c = i) (hc0 : 0 < c) (hcn : c < n) (hy : a[c]? = some y) (hx : a[i]? = some x)
    (hlt : f y < f x)
    (hmin : ∀ d, 0 < d → d < n → parent d = i → ∀ z, a[d]? = some z → f y ≤ f z) :
    DownOrder f (a.swapIfInBounds i c) n c := by
  have hic : i < c := hpc ▸ parent_lt hc0
  have get := getElem?_swapIfInBounds (show i < a.size by omega) (show c < a.size by omega)
  constructor
  · intro k hk hkn hkc z q hz hq
    rw [get] at hz hq
    by_cases hkc' : k = c
    · subst hkc'
      rw [Equiv.swap_apply_right, hx] at hz
      rw [hpc, Equiv.swap_apply_left, hy] at hq
      cases hz; cases hq
      exact hlt.le
    · by_cases hki : k = i
      · -- the old place of the hole holds `y` now, under the unchanged parent of `i`
        subst hki
        have hpk : parent k < k := parent_lt hk
        rw [Equiv.swap_apply_left, hy] at hz
        rw [Equiv.swap_apply_of_ne_of_ne (by omega) (by omega)] at hq
        cases hz
        exact h.grand hk c hc0 hcn hpc y q hy hq
      · rw [Equiv.swap_apply_of_ne_of_ne hki hkc'] at hz
        by_cases hpk : parent k = i
        · rw [hpk, Equiv.swap_apply_left, hy] at hq
          cases hq
          exact hmin k hk hkn hpk z hz
        · rw [Equiv.swap_apply_of_ne_of_ne hpk hkc] at hq
          exact h.except k hk hkn hpk z q hz hq
  · intro _ d hd hdn hpd z g hz hg
    have hcd : c < d := hpd ▸ parent_lt hd
    rw [get, hpc, Equiv.swap_apply_left, hy] at hg
    rw [get, Equiv.swap_apply_of_ne_of_ne (by omega) (by omega)] at hz
    cases hg
    exact h.except d hd hdn (by omega) z y hz (hpd ▸ hy)

end DownOrder

/-- Moving an element down among the first `n` positions from a hole with `DownOrder` ends in a
heap there. -/
theorem siftDown_heapBelow {f : α → β} {n : Nat} {a : Array α} {i : Nat} (h : DownOrder f a n i)
    (hn : n ≤ a.size) : HeapBelow f (siftDown (keyLt f) a n i) n := by
  induction a, i using siftDown.induct (keyLt f) n with
  | case1 a i l hl right c y x hx hy hlt ih =>
    have hl' : 2 * i + 1 < n := hl
    have hy' : a[downChild (keyLt f) a n i]? = some y := hy
    rw [siftDown_eq, dif_pos hl', hy', hx]
    simp only [hlt, if_true]
    have hc0 : 0 < downChild (keyLt f) a n i := Nat.lt_of_le_of_lt (Nat.zero_le i) lt_downChild
    exact ih (h.move hn parent_downChild hc0 (downChild_lt hl') hy' hx (keyLt_eq_true.mp hlt)
      (fun d hd hdn hpd z hz => downChild_le hy' hd hdn hpd hz)) (by simpa using hn)
  | case2 a i l hl right c y x hx hy hlt =>
    have hy' : a[downChild (keyLt f) a n i]? = some y := hy
    rw [siftDown_eq, dif_pos (show 2 * i + 1 < n from hl), hy', hx]
    simp only [hlt, Bool.false_eq_true, if_false]
    refine h.finish (fun d hd hdn hpd z q hz hq => ?_)
    rw [hpd, hx] at hq
    cases hq
    exact (not_lt.mp (by simpa using hlt)).trans (downChild_le hy' hd hdn hpd hz)
  | case3 a i l hl right c hnone =>
    rw [siftDown_eq, dif_pos (show 2 * i + 1 < n from hl)]
    -- the compared child is among the first `n`, so both elements exist
    have hcn : c < a.size := Nat.lt_of_lt_of_le (downChild_lt (show 2 * i + 1 < n from hl)) hn
    obtain ⟨y, hy⟩ : ∃ y, a[c]? = some y := ⟨a[c], Array.getElem?_eq_getElem hcn⟩
    split
    · exact absurd (hnone _ _ ‹_› ‹_›) id
    · refine h.finish (fun d hd hdn hpd z q hz hq => ?_)
      rw [hpd] at hq
      exact absurd (hnone y q hy hq) id
  | case4 a i l hl =>
    rw [siftDown_eq, dif_neg (show ¬ 2 * i + 1 < n from hl)]
    refine h.finish (fun d hd hdn hpd => ?_)
    unfold parent at hpd
    omega

/-- Moving down among the first `n` positions leaves the others alone. -/
theorem getElem?_siftDown_of_le (lt : α → α → Bool) {n : Nat} (a : Array α) (i : Nat) {k : Nat}
    (hk : n ≤ k) : (siftDown lt a n i)[k]? = a[k]? := by
  induction a, i using siftDown.induct lt n with
  | case1 a i l hl right c y x hx hy hlt ih =>
    have hy' : a[downChild lt a n i]? = some y := hy
    rw [siftDown_eq, dif_pos (show 2 * i + 1 < n from hl), hy', hx]
    simp only [hlt, if_true]
    have hcn : c < n := downChild_lt (show 2 * i + 1 < n from hl)
    have hic : i < c := lt_downChild
    refine ih.trans ?_
    rw [getElem?_swapIfInBounds (Array.getElem?_eq_some_iff.mp hx).1
      (Array.getElem?_eq_some_iff.mp hy).1, Equiv.swap_apply_of_ne_of_ne (by omega) (by omega)]
  | case2 a i l hl right c y x hx hy hlt =>
    have hy' : a[downChild lt a n i]? = some y := hy
    rw [siftDown_eq, dif_pos (show 2 * i + 1 < n from hl), hy', hx]
    simp only [hlt, Bool.false_eq_true, if_false]
  | case3 a i l hl right c hnone =>
    rw [siftDown_eq, dif_pos (show 2 * i + 1 < n from hl)]
    split
    · exact absurd (hnone _ _ ‹_› ‹_›) id
    · rfl
  | case4 a i l hl =>
    rw [siftDown_eq, dif_neg (show ¬ 2 * i + 1 < n from hl)]

theorem siftDown_perm (lt : α → α → Bool) (n : Nat) (a : Array α) (i : Nat) :
    (siftDown lt a n i).Perm a := by
  induction a, i using siftDown.induct lt n with
  | case1 a i l hl right c y x hx hy hlt ih =>
    have hy' : a[downChild lt a n i]? = some y := hy
    rw [siftDown_eq, dif_pos (show 2 * i + 1 < n from hl), hy', hx]
    simp only [hlt, if_true]
    exact ih.trans (swapIfInBounds_perm a _ _)
  | case2 a i l hl right c y x hx hy hlt =>
    have hy' : a[downChild lt a n i]? = some y := hy
    rw [siftDown_eq, dif_pos (show 2 * i + 1 < n from hl), hy', hx]
    simp only [hlt, Bool.false_eq_true, if_false]
    exact .rfl
  | case3 a i l hl right c hnone =>
    rw [siftDown_eq, dif_pos (show 2 * i + 1 < n from hl)]
    split
    · exact absurd (hnone _ _ ‹_› ‹_›) id
    · exact .rfl
  | case4 a i l hl =>
    rw [siftDown_eq, dif_neg (show ¬ 2 * i + 1 < n from hl)]

/-! ## Adding and taking the root -/

section Ops

variable {f : α → β} {a : Array α}

/-- The root of a heap is at or before every element. -/
theorem IsHeap.root_le (h : IsHeap f a) {y : α} (hy : a[0]? = some y) :
    ∀ (k : Nat) z, a[k]? = some z → f y ≤ f z := by
  intro k
  induction k using Nat.strong_induction_on with
  | _ k ih =>
    intro z hz
    rcases Nat.eq_zero_or_pos k with rfl | hk
    · rw [hy] at hz; cases hz; exact le_rfl
    · -- the parent is before `k`, and at or before the element there
      have hpk : parent k < k := parent_lt hk
      have hks : k < a.size := (Array.getElem?_eq_some_iff.mp hz).1
      obtain ⟨p, hp⟩ : ∃ p, a[parent k]? = some p :=
        ⟨a[parent k], Array.getElem?_eq_getElem (by omega)⟩
      exact (ih (parent k) hpk p hp).trans (h k hk z p hz hp)

/-- Changing elements without changing their keys keeps a heap. -/
theorem IsHeap.map (h : IsHeap f a) {g : α → α} (hg : ∀ x, f (g x) = f x) :
    IsHeap f (a.map g) := by
  intro c hc x p hx hp
  rw [Array.getElem?_map] at hx hp
  obtain ⟨x', hx', rfl⟩ := Option.map_eq_some_iff.mp hx
  obtain ⟨p', hp', rfl⟩ := Option.map_eq_some_iff.mp hp
  rw [hg, hg]
  exact h c hc x' p' hx' hp'

theorem push_perm (lt : α → α → Bool) (a : Array α) (x : α) : (push lt a x).Perm (a.push x) :=
  siftUp_perm lt (a.push x) a.size

theorem IsHeap.push (h : IsHeap f a) (x : α) : IsHeap f (push (keyLt f) a x) := by
  refine siftUp_isHeap ⟨fun c hc hne z q hz hq => ?_, fun _ c hc hpc z g hz _ => ?_⟩
  · rw [Array.getElem?_push, if_neg hne] at hz
    have hcs : c < a.size := (Array.getElem?_eq_some_iff.mp hz).1
    have hpc : parent c ≠ a.size := by
      have := parent_lt hc
      omega
    rw [Array.getElem?_push, if_neg hpc] at hq
    exact h c hc z q hz hq
  · -- the new last position has no children
    have hlt : a.size < c := hpc ▸ parent_lt hc
    rw [Array.getElem?_push, if_neg (by omega), Array.getElem?_eq_none (by omega)] at hz
    cases hz

theorem pop?_eq_none_iff (lt : α → α → Bool) (a : Array α) :
    pop? lt a = none ↔ a.size = 0 := by
  unfold pop?
  split
  · simp [*]
  · rename_i h
    simp only [h, iff_false, Option.map_eq_none_iff, Array.back?_eq_none_iff]
    intro he
    have := congrArg Array.size he
    simp only [Array.size_empty] at this
    rw [(siftDown_perm _ _ _ _).size_eq, Array.size_swapIfInBounds] at this
    exact h this

/-- What `pop?` answers: the root, and the other elements. -/
theorem pop?_eq_some {lt : α → α → Bool} {y : α} {b : Array α} (h : pop? lt a = some (y, b)) :
    a[0]? = some y ∧ (b.push y).Perm a ∧
      b = (siftDown lt (a.swapIfInBounds 0 (a.size - 1)) (a.size - 1) 0).pop := by
  unfold pop? at h
  split at h
  · cases h
  · rename_i hne
    obtain ⟨y', hy', hyb⟩ := Option.map_eq_some_iff.mp h
    cases hyb
    -- the root went to the last position, which moving down does not touch
    have hlast : (a.swapIfInBounds 0 (a.size - 1))[a.size - 1]? = a[0]? := by
      rw [getElem?_swapIfInBounds (by omega) (by omega), Equiv.swap_apply_right]
    have hback := hy'
    rw [Array.back?_eq_getElem?, (siftDown_perm _ _ _ _).size_eq, Array.size_swapIfInBounds,
      getElem?_siftDown_of_le _ _ _ (le_refl _), hlast] at hback
    obtain ⟨ys, hys⟩ := Array.back?_eq_some_iff.mp hy'
    refine ⟨hback, ?_, rfl⟩
    rw [hys, Array.pop_push, ← hys]
    exact (siftDown_perm _ _ _ _).trans (swapIfInBounds_perm _ _ _)

theorem IsHeap.pop? (h : IsHeap f a) {y : α} {b : Array α}
    (hp : pop? (keyLt f) a = some (y, b)) : IsHeap f b := by
  obtain ⟨-, -, rfl⟩ := pop?_eq_some hp
  have hne : a.size ≠ 0 := fun h0 => by simp [(pop?_eq_none_iff _ _).mpr h0] at hp
  have hsize : a.size - 1 ≤ (a.swapIfInBounds 0 (a.size - 1)).size := by simp
  have get := getElem?_swapIfInBounds (a := a) (show 0 < a.size by omega)
    (show a.size - 1 < a.size by omega)
  -- with the root and the last element traded, only the edges from the root's children are off
  have start : DownOrder f (a.swapIfInBounds 0 (a.size - 1)) (a.size - 1) 0 := by
    refine ⟨fun c hc hcn hpc z q hz hq => ?_, fun h0 => absurd h0 (Nat.lt_irrefl 0)⟩
    have hpc' : parent c < c := parent_lt hc
    rw [get, Equiv.swap_apply_of_ne_of_ne (by omega) (by omega)] at hz
    rw [get, Equiv.swap_apply_of_ne_of_ne hpc (by omega)] at hq
    exact h c hc z q hz hq
  have below := siftDown_heapBelow start hsize
  intro c hc z q hz hq
  rw [Array.getElem?_pop] at hz hq
  have hcn : c < a.size - 1 := by
    by_contra hcn
    rw [if_neg (by simpa [(siftDown_perm _ _ _ _).size_eq] using hcn)] at hz
    cases hz
  rw [(siftDown_perm _ _ _ _).size_eq, Array.size_swapIfInBounds] at hz hq
  rw [if_pos hcn] at hz
  rw [if_pos (Nat.lt_trans (parent_lt hc) hcn)] at hq
  exact below c hc hcn z q hz hq

end Ops

/-! ## Only the comparisons among the elements count -/

section Congr

variable {lt lt' : α → α → Bool}

/-- Two comparisons agree on the elements of `a`. -/
def AgreeOn (lt lt' : α → α → Bool) (a : Array α) : Prop :=
  ∀ x ∈ a, ∀ y ∈ a, lt x y = lt' x y

theorem AgreeOn.perm {a b : Array α} (h : AgreeOn lt lt' a) (hp : b.Perm a) : AgreeOn lt lt' b :=
  fun x hx y hy => h x (hp.mem_iff.mp hx) y (hp.mem_iff.mp hy)

theorem siftUp_congr {a : Array α} {j : Nat} (h : AgreeOn lt lt' a) :
    siftUp lt a j = siftUp lt' a j := by
  induction a, j using siftUp.induct lt with
  | case1 a => rw [siftUp.eq_1 lt, siftUp.eq_1 lt', dif_pos rfl, dif_pos rfl]
  | case2 a j hj x p hp hx hlt ih =>
    have hlt' : lt' x p = true :=
      (h x (Array.mem_of_getElem? hx) p (Array.mem_of_getElem? hp)) ▸ hlt
    rw [siftUp.eq_1 lt, siftUp.eq_1 lt', dif_neg hj, dif_neg hj, hx, hp]
    simp only [hlt, hlt', if_true]
    exact ih (h.perm (swapIfInBounds_perm a _ _))
  | case3 a j hj x p hp hx hlt =>
    have hlt' : ¬ lt' x p = true :=
      (h x (Array.mem_of_getElem? hx) p (Array.mem_of_getElem? hp)) ▸ hlt
    rw [siftUp.eq_1 lt, siftUp.eq_1 lt', dif_neg hj, dif_neg hj, hx, hp]
    simp only [hlt, hlt', Bool.false_eq_true, if_false]
  | case4 a j hj hnone =>
    rw [siftUp.eq_1 lt, siftUp.eq_1 lt', dif_neg hj, dif_neg hj]
    split
    · exact absurd (hnone _ _ ‹_› ‹_›) id
    · rfl

theorem downChild_congr {a : Array α} {n i : Nat} (h : AgreeOn lt lt' a) :
    downChild lt a n i = downChild lt' a n i := by
  unfold downChild
  split
  · rename_i r x hr hx
    rw [h r (Array.mem_of_getElem? hr) x (Array.mem_of_getElem? hx)]
  · rfl

theorem siftDown_congr {n : Nat} {a : Array α} {i : Nat} (h : AgreeOn lt lt' a) :
    siftDown lt a n i = siftDown lt' a n i := by
  induction a, i using siftDown.induct lt n with
  | case1 a i l hl right c y x hx hy hlt ih =>
    have hy' : a[downChild lt a n i]? = some y := hy
    have hlt' : lt' y x = true :=
      (h y (Array.mem_of_getElem? hy) x (Array.mem_of_getElem? hx)) ▸ hlt
    rw [siftDown_eq lt, siftDown_eq lt', ← downChild_congr h, dif_pos (show 2 * i + 1 < n from hl),
      dif_pos (show 2 * i + 1 < n from hl), hy', hx]
    simp only [hlt, hlt', if_true]
    exact ih (h.perm (swapIfInBounds_perm a _ _))
  | case2 a i l hl right c y x hx hy hlt =>
    have hy' : a[downChild lt a n i]? = some y := hy
    have hlt' : ¬ lt' y x = true :=
      (h y (Array.mem_of_getElem? hy) x (Array.mem_of_getElem? hx)) ▸ hlt
    rw [siftDown_eq lt, siftDown_eq lt', ← downChild_congr h, dif_pos (show 2 * i + 1 < n from hl),
      dif_pos (show 2 * i + 1 < n from hl), hy', hx]
    simp only [hlt, hlt', Bool.false_eq_true, if_false]
  | case3 a i l hl right c hnone =>
    rw [siftDown_eq lt, siftDown_eq lt', ← downChild_congr h, dif_pos (show 2 * i + 1 < n from hl),
      dif_pos (show 2 * i + 1 < n from hl)]
    split
    · exact absurd (hnone _ _ ‹_› ‹_›) id
    · rfl
  | case4 a i l hl =>
    rw [siftDown_eq lt, siftDown_eq lt', dif_neg (show ¬ 2 * i + 1 < n from hl),
      dif_neg (show ¬ 2 * i + 1 < n from hl)]

theorem push_congr {a : Array α} {x : α} (h : AgreeOn lt lt' (a.push x)) :
    push lt a x = push lt' a x :=
  siftUp_congr h

theorem pop?_congr {a : Array α} (h : AgreeOn lt lt' a) : pop? lt a = pop? lt' a := by
  unfold pop?
  split
  · rfl
  · dsimp only
    rw [siftDown_congr (h.perm (swapIfInBounds_perm a _ _))]

end Congr

end CoSimBridge.Delivery.Heap