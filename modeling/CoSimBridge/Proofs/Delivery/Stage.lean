import Mathlib
import CoSimBridge.Proofs.Delivery.HeapOrder
import CoSimBridge.Proofs.Delivery.Buckets
/-!
# Stages of a buffer

A stage is a heap of buckets whose index is kept as marks on the buckets. `Stage.Sound` is what
every operation keeps: the buckets are tidy (marked, stamped with no NaN, one bucket per
timestamp) and form a heap by timestamp. Under it each operation does to the list of buckets
what its name says: `put` files a message into the bucket of its timestamp or adds one, `pop?`
releases a bucket of least timestamp, and `adopt` adds a bucket. The two loops of a drain
release, oldest first, exactly the buckets they do not hold back (`releaseReady_releases`) and
move into the other stage exactly the buckets not after a time (`promote_moves`); at a time
that is no NaN these are the buckets up to it (`releaseReady_spec`, `promote_spec`).
-/

namespace CoSimBridge.Delivery

open Heap (IsHeap keyLt)

set_option autoImplicit false

variable {κ ν : Type}

/-- What the operations of a stage keep: tidy buckets in a heap by timestamp. -/
structure Stage.Sound (s : Stage κ ν) : Prop where
  tidy : Tidy s.heap.toList
  heap : IsHeap Bucket.rank s.heap

namespace Stage

/-- On buckets stamped with no NaN, the heap's comparison is that of the ranks. -/
theorem before_agreeOn {a : Array (Bucket κ ν)} (h : ∀ b ∈ a.toList, b.ts.isNaN = false) :
    Heap.AgreeOn Bucket.before (keyLt Bucket.rank) a := by
  intro x hx y hy
  simp only [Bucket.before, keyLt, Bucket.rank]
  exact decide_eq_decide.mpr
    (Number.lt_iff_rank_lt (h x (Array.mem_toList_iff.mpr hx)) (h y (Array.mem_toList_iff.mpr hy)))

theorem rank_ne_of_ne {a : Array (Bucket κ ν)} (h : Tidy a.toList) {i j : Nat} (hi : i < a.size)
    (hj : j < a.size) (hij : i ≠ j) : a[i].rank ≠ a[j].rank := by
  have hpw := List.pairwise_iff_getElem.mp h.distinct
  rcases Nat.lt_or_gt_of_ne hij with hlt | hlt
  · have hne := hpw i j (by simpa using hi) (by simpa using hj) hlt
    rwa [Array.getElem_toList, Array.getElem_toList] at hne
  · have hne := hpw j i (by simpa using hj) (by simpa using hi) hlt
    rw [Array.getElem_toList, Array.getElem_toList] at hne
    exact Ne.symm hne

theorem find?_isSome_iff {s : Stage κ ν} (hidx : ∀ b ∈ s.heap.toList, b.indexed = true)
    (ts : Float) : (s.find? ts).isSome = true ↔ ∃ b ∈ s.heap.toList, (b.ts == ts) = true := by
  unfold find?
  rw [Array.findIdx?_isSome, ← Array.any_toList, List.any_eq_true]
  constructor
  · rintro ⟨b, hb, hp⟩
    exact ⟨b, hb, (Bool.and_eq_true _ _ ▸ hp).2⟩
  · rintro ⟨b, hb, hbt⟩
    exact ⟨b, hb, by simp [hidx b hb, hbt]⟩

theorem unindex_of_beq_false {s : Stage κ ν} {ts : Float}
    (h : ∀ c ∈ s.heap.toList, (c.ts == ts) = false) : s.unindex ts = s := by
  cases s with
  | mk heap =>
    simp only [unindex, Stage.mk.injEq]
    apply Array.ext_getElem?
    intro i
    rw [Array.getElem?_map]
    cases hc : heap[i]? with
    | none => rfl
    | some c => simp [h c (Array.mem_toList_iff.mpr (Array.mem_of_getElem? hc))]

variable {s : Stage κ ν}

/-- Putting a message whose timestamp has a bucket files it there. -/
theorem put_of_exists (hs : s.Sound) {ts : Float} (hts : ts.isNaN = false)
    (hex : ∃ b ∈ s.heap.toList, (b.ts == ts) = true) [BEq κ] (k : κ) (v : ν) :
    (s.put ts k v).1 = ⟨s.heap.map (·.file ⟨ts, k, v⟩)⟩ := by
  obtain ⟨i, hi⟩ := Option.isSome_iff_exists.mp ((find?_isSome_iff hs.tidy.indexed ts).mpr hex)
  obtain ⟨hil, hpi, -⟩ := Array.findIdx?_eq_some_iff_getElem.mp hi
  have hit : (s.heap[i].ts == ts) = true := (Bool.and_eq_true _ _ ▸ hpi).2
  unfold put
  rw [hi]
  dsimp only
  rw [Array.getElem?_eq_getElem hil]
  dsimp only
  rcases hpe : putEntry k v s.heap[i].entries with ⟨entries, replaced⟩
  have hent : (putEntry k v s.heap[i].entries).1 = entries := by rw [hpe]
  congr 1
  apply Array.ext_getElem?
  intro j
  rw [Array.getElem?_setIfInBounds, Array.getElem?_map]
  by_cases hij : i = j
  · subst hij
    rw [if_pos rfl, if_pos hil, Array.getElem?_eq_getElem hil, Option.map_some,
      Bucket.file, if_pos hit, hent]
  · rw [if_neg hij]
    cases hj : s.heap[j]? with
    | none => rfl
    | some c =>
      -- another bucket is at another timestamp, so the message leaves it alone
      obtain ⟨hjl, rfl⟩ := Array.getElem?_eq_some_iff.mp hj
      have hne := rank_ne_of_ne hs.tidy hil hjl hij
      have hcts : (s.heap[j].ts == ts) = false := by
        refine Bool.eq_false_iff.mpr fun hct => hne ?_
        have hin : s.heap[i] ∈ s.heap.toList := by simp
        have hjn : s.heap[j] ∈ s.heap.toList := by simp
        rw [Bucket.rank, Bucket.rank,
          (Number.beq_iff_rank_eq (hs.tidy.ts _ hin) hts).mp hit,
          (Number.beq_iff_rank_eq (hs.tidy.ts _ hjn) hts).mp hct]
      rw [Option.map_some, @file_of_beq_false κ ν _ s.heap[j] ⟨ts, k, v⟩ hcts]

/-- Putting a message whose timestamp has no bucket adds one. -/
theorem put_of_forall {ts : Float}
    (hnone : ∀ b ∈ s.heap.toList, (b.ts == ts) = false) [BEq κ] (k : κ) (v : ν) :
    (s.put ts k v).1 = s.add (Bucket.first ⟨ts, k, v⟩) := by
  have hfind : s.find? ts = none := by
    unfold find?
    rw [Array.findIdx?_eq_none_iff]
    intro b hb
    simp [hnone b (Array.mem_toList_iff.mpr hb)]
  unfold put
  rw [hfind]
  rfl

theorem add_spec (hs : s.Sound) {b : Bucket κ ν} (hb : Tidy (s.heap.toList ++ [b])) :
    (s.add b).heap.toList.Perm (s.heap.toList ++ [b]) ∧ (s.add b).Sound := by
  have hag : Heap.AgreeOn Bucket.before (keyLt Bucket.rank) (s.heap.push b) :=
    before_agreeOn (by simpa using hb.ts)
  have heq : (s.add b).heap = Heap.push (keyLt Bucket.rank) s.heap b := Heap.push_congr hag
  have hperm : (s.add b).heap.toList.Perm (s.heap.toList ++ [b]) := by
    rw [heq, ← Array.toList_push]
    exact Array.perm_iff_toList_perm.mp (Heap.push_perm _ _ _)
  exact ⟨hperm, hb.perm hperm, heq ▸ hs.heap.push b⟩

theorem peek?_eq_none (h : s.heap.size = 0) : s.peek? = none := by
  unfold peek?
  exact Array.getElem?_eq_none (by omega)

/-- Releasing from a stage that is not empty takes out its oldest bucket, the one `peek?`
shows. -/
theorem pop?_spec (hs : s.Sound) (hne : s.heap.size ≠ 0) :
    ∃ b s', s.pop? = some (b, s') ∧ s.peek? = some b ∧
      s.heap.toList.Perm (b :: s'.heap.toList) ∧
      s'.Sound ∧ ∀ c ∈ s.heap.toList, b.rank ≤ c.rank := by
  have hpop : Heap.pop? Bucket.before s.heap = Heap.pop? (keyLt Bucket.rank) s.heap :=
    Heap.pop?_congr (before_agreeOn hs.tidy.ts)
  obtain ⟨⟨b, h⟩, hbh⟩ := Option.ne_none_iff_exists'.mp
    (mt (Heap.pop?_eq_none_iff (keyLt Bucket.rank) s.heap).mp hne)
  obtain ⟨h0, hperm, -⟩ := Heap.pop?_eq_some hbh
  have hpermL : s.heap.toList.Perm (b :: h.toList) := by
    have := (Array.perm_iff_toList_perm.mp hperm).symm
    rw [Array.toList_push] at this
    exact this.trans (List.perm_append_singleton b h.toList)
  have htidy : Tidy (b :: h.toList) := hs.tidy.perm hpermL.symm
  -- the other buckets are at other timestamps: releasing `b` clears no mark of theirs
  have hother : ∀ c ∈ h.toList, (c.ts == b.ts) = false := by
    intro c hc
    refine Bool.eq_false_iff.mpr fun hcb => ?_
    have hr := (Number.beq_iff_rank_eq (htidy.ts c (List.mem_cons_of_mem _ hc))
      (htidy.ts b List.mem_cons_self)).mp hcb
    exact (List.pairwise_cons.mp htidy.distinct).1 c hc hr.symm
  refine ⟨b, ⟨h⟩, ?_, h0, hpermL, ⟨htidy.sublist (List.sublist_cons_self b _),
    hs.heap.pop? hbh⟩, ?_⟩
  · unfold pop?
    rw [hpop, hbh, Option.map_some]
    dsimp only
    rw [unindex_of_beq_false hother]
  · intro c hc
    obtain ⟨k, hk⟩ := Array.mem_iff_getElem?.mp (Array.mem_toList_iff.mp hc)
    exact hs.heap.root_le h0 k c hk

/-- Adopting a bucket at a new timestamp adds it. -/
theorem adopt_spec (hs : s.Sound) {b : Bucket κ ν} (hb : Tidy (s.heap.toList ++ [b])) :
    (s.adopt b).heap.toList.Perm (s.heap.toList ++ [b]) ∧ (s.adopt b).Sound := by
  have hother : ∀ c ∈ s.heap.toList, (c.ts == b.ts) = false := by
    intro c hc
    refine Bool.eq_false_iff.mpr fun hcb => ?_
    have hr := (Number.beq_iff_rank_eq (hb.ts c (List.mem_append_left _ hc))
      (hb.ts b (by simp))).mp hcb
    exact (List.pairwise_append.mp hb.distinct).2.2 c hc b (List.mem_singleton_self b) hr
  have hmark : { b with indexed := true } = b := by
    have := hb.indexed b (by simp)
    cases b; simp_all
  unfold adopt
  rw [unindex_of_beq_false hother, hmark]
  exact add_spec hs hb

theorem Sound.map_file [BEq κ] (hs : s.Sound) (m : Item κ ν) :
    (⟨s.heap.map (·.file m)⟩ : Stage κ ν).Sound where
  tidy := by simpa using hs.tidy.map_file m
  heap := hs.heap.map fun c => by simp [Bucket.rank]

/-- Putting a message into a stage beside buckets `o` with none at its timestamp files it into
the buckets of both. -/
theorem put_beside [BEq κ] {o : List (Bucket κ ν)} {m : Item κ ν} (hs : s.Sound)
    (hm : m.ts.isNaN = false) (ho : ∀ c ∈ o, (c.ts == m.ts) = false) :
    ((s.put m.ts m.key m.value).1.heap.toList ++ o).Perm (fileMessage (s.heap.toList ++ o) m) ∧
      (s.put m.ts m.key m.value).1.Sound := by
  by_cases hex : ∃ c ∈ s.heap.toList, (c.ts == m.ts) = true
  · -- the message joins the bucket of its timestamp, which is in this stage
    have hany : (s.heap.toList ++ o).any (·.ts == m.ts) = true := by
      obtain ⟨c, hc, hct⟩ := hex
      exact List.any_eq_true.mpr ⟨c, List.mem_append_left _ hc, hct⟩
    rw [put_of_exists hs hm hex, fileMessage, if_pos hany, List.map_append, map_file_of_forall ho]
    exact ⟨by simp, hs.map_file m⟩
  · -- no bucket has the timestamp: the message opens a new one
    have hnone : ∀ c ∈ s.heap.toList, (c.ts == m.ts) = false := by simpa using hex
    have hfile : fileMessage s.heap.toList m = s.heap.toList ++ [Bucket.first m] := by
      rw [fileMessage, List.any_eq_false.mpr fun c hc => by simp [hnone c hc]]
      rfl
    have hany : (s.heap.toList ++ o).any (·.ts == m.ts) = false := by
      rw [List.any_append, List.any_eq_false.mpr fun c hc => by simp [hnone c hc],
        List.any_eq_false.mpr fun c hc => by simp [ho c hc], Bool.false_or]
    obtain ⟨hadd, hsound⟩ := add_spec hs (hfile ▸ hs.tidy.fileMessage hm)
    rw [put_of_forall hnone, fileMessage, if_neg (by simp [hany])]
    refine ⟨?_, hsound⟩
    calc List.Perm ((s.add (Bucket.first m)).heap.toList ++ o)
          (s.heap.toList ++ ([Bucket.first m] ++ o)) := by
          simpa using hadd.append_right o
      List.Perm _ (s.heap.toList ++ (o ++ [Bucket.first m])) := List.perm_append_comm.append_left _
      _ = s.heap.toList ++ o ++ [Bucket.first m] := (List.append_assoc _ _ _).symm

/-- After a put, each bucket is at the timestamp of a bucket before or at the message's. -/
theorem ts_put [BEq κ] {m : Item κ ν} (hs : s.Sound) (hm : m.ts.isNaN = false) :
    ∀ c ∈ (s.put m.ts m.key m.value).1.heap.toList,
      (∃ c' ∈ s.heap.toList, c.ts = c'.ts) ∨ c.ts = m.ts := by
  intro c hc
  obtain ⟨hperm, -⟩ := put_beside (o := []) hs hm (by simp)
  rw [List.append_nil, List.append_nil] at hperm
  rcases mem_fileMessage.mp (hperm.subset hc) with ⟨c', hc', rfl⟩ | ⟨-, rfl⟩
  · exact .inl ⟨c', hc', ts_file c' m⟩
  · exact .inr rfl

/-- Putting a message into one of two stages that together hold the buckets of `ms`, when the
other has no bucket at its timestamp: the two then hold the buckets of `ms ++ [m]`, and each
bucket of the first stays at the timestamp of one it had or is at the message's. -/
theorem put_files [BEq κ] [LawfulBEq κ] {o : Stage κ ν} {ms : List (Item κ ν)} {m : Item κ ν}
    (hs : s.Sound) (hms : ∀ m' ∈ ms ++ [m], m'.ts.isNaN = false)
    (hp : (s.heap.toList ++ o.heap.toList).Perm (bucketsOf ms))
    (ho : ∀ c ∈ o.heap.toList, (c.ts == m.ts) = false) :
    ((s.put m.ts m.key m.value).1.heap.toList ++ o.heap.toList).Perm (bucketsOf (ms ++ [m])) ∧
      (s.put m.ts m.key m.value).1.Sound ∧
      ∀ c ∈ (s.put m.ts m.key m.value).1.heap.toList,
        (∃ c' ∈ s.heap.toList, c.ts = c'.ts) ∨ c.ts = m.ts := by
  have hm : m.ts.isNaN = false := hms m (List.mem_append_right _ (List.mem_singleton_self m))
  obtain ⟨hperm, hsound⟩ := put_beside hs hm ho
  rw [bucketsOf_append_singleton]
  exact ⟨hperm.trans (fileMessage_perm hp m), hsound, ts_put hs hm⟩

end Stage

/-! ## The loops of a drain -/

namespace Buffer

variable {s s' r f f' : Stage κ ν} {b : Bucket κ ν} {now : Float} {fuel : Nat}

theorem releaseReady_succ_of_empty (sync : Bool) (h : s.peek? = none) :
    releaseReady sync now (fuel + 1) s = ([], s) := by
  rw [releaseReady, h]

theorem releaseReady_succ_of_late (hpeek : s.peek? = some b) (hlate : now < b.ts) :
    releaseReady true now (fuel + 1) s = ([], s) := by
  rw [releaseReady, hpeek]
  simp [hlate]

/-- A bucket that is not held back is released, then the loop goes on. -/
theorem releaseReady_succ_of_taken {sync : Bool} (hpeek : s.peek? = some b)
    (hpop : s.pop? = some (b, s')) (hheld : ¬ (sync = true ∧ now < b.ts)) :
    releaseReady sync now (fuel + 1) s =
      (b.items ++ (releaseReady sync now fuel s').1, (releaseReady sync now fuel s').2) := by
  have htaken : (sync && decide (b.ts > now)) = false := by
    cases sync <;> simp_all
  rw [releaseReady, hpeek]
  simp [htaken, hpop]

theorem promote_succ_of_empty (h : f.peek? = none) : promote now (fuel + 1) r f = (r, f) := by
  rw [promote, h]

theorem promote_succ_of_late (hpeek : f.peek? = some b) (hlate : now < b.ts) :
    promote now (fuel + 1) r f = (r, f) := by
  rw [promote, hpeek]
  simp [hlate]

theorem promote_succ_of_due (hpeek : f.peek? = some b) (hpop : f.pop? = some (b, f'))
    (hdue : ¬ now < b.ts) : promote now (fuel + 1) r f = promote now fuel (r.adopt b) f' := by
  rw [promote, hpeek]
  simp [hdue, hpop]

/-- When the oldest bucket is after `t`, every bucket is. -/
theorem lt_ts_of_lt_oldest (hs : s.Sound) (hmin : ∀ c ∈ s.heap.toList, b.rank ≤ c.rank)
    (hlate : now < b.ts) : ∀ c ∈ s.heap.toList, now < c.ts := by
  obtain ⟨hnow, hb⟩ := Number.isNaN_eq_false_of_lt hlate
  intro c hc
  rw [Number.lt_iff_rank_lt hnow (hs.tidy.ts c hc)]
  exact lt_of_lt_of_le ((Number.lt_iff_rank_lt hnow hb).mp hlate) (hmin c hc)

/-- Popping a bucket that a test refuses takes it from the refused buckets and leaves the
others. -/
theorem filter_perm_of_pop {l l' : List (Bucket κ ν)} (P : Bucket κ ν → Bool)
    (hperm : l.Perm (b :: l')) (hb : P b = false) :
    (l.filter fun c => !P c).Perm (b :: l'.filter fun c => !P c) ∧
      (l.filter P).Perm (l'.filter P) := by
  have hout := hperm.filter fun c => !P c
  rw [List.filter_cons_of_pos (by simp [hb])] at hout
  have hkept := hperm.filter P
  rw [List.filter_cons_of_neg (by simp [hb])] at hkept
  exact ⟨hout, hkept⟩

theorem size_le_of_perm_cons (hperm : s.heap.toList.Perm (b :: s'.heap.toList))
    (hsize : s.heap.size ≤ fuel + 1) : s'.heap.size ≤ fuel := by
  have hlen := hperm.length_eq
  simp only [Array.length_toList, List.length_cons] at hlen
  omega

/-- The releasing loop of a drain, in any window: with fuel for every bucket, it hands out,
oldest first, the items of exactly the buckets it does not hold back (a synchronized buffer
holds back those after `now`) and keeps the others. -/
theorem releaseReady_releases (sync : Bool) (now : Float) (fuel : Nat) (s : Stage κ ν)
    (hs : s.Sound) (hsize : s.heap.size ≤ fuel) :
    ∃ rel : List (Bucket κ ν),
      rel.Perm (s.heap.toList.filter fun c => !(sync && decide (now < c.ts))) ∧
      rel.Pairwise (fun c d => c.rank < d.rank) ∧
      (releaseReady sync now fuel s).1 = rel.flatMap Bucket.items ∧
      (releaseReady sync now fuel s).2.heap.toList.Perm
        (s.heap.toList.filter fun c => sync && decide (now < c.ts)) ∧
      (releaseReady sync now fuel s).2.Sound := by
  induction fuel generalizing s with
  | zero =>
    have hnil : s.heap.toList = [] :=
      List.eq_nil_of_length_eq_zero (by rw [Array.length_toList]; omega)
    rw [releaseReady]
    exact ⟨[], by simp [hnil], .nil, rfl, by simp [hnil], hs⟩
  | succ fuel ih =>
    by_cases hne : s.heap.size = 0
    · have hnil : s.heap.toList = [] := by simpa using hne
      rw [releaseReady_succ_of_empty sync (Stage.peek?_eq_none hne)]
      exact ⟨[], by simp [hnil], .nil, rfl, by simp [hnil], hs⟩
    obtain ⟨b, s', hpop, hpeek, hperm, hs', hmin⟩ := Stage.pop?_spec hs hne
    by_cases hheld : sync = true ∧ now < b.ts
    · -- the oldest bucket is held back, so every bucket is
      obtain ⟨rfl, hlate⟩ := hheld
      have hall := lt_ts_of_lt_oldest hs hmin hlate
      rw [releaseReady_succ_of_late hpeek hlate]
      exact ⟨[], by rw [List.filter_eq_nil_iff.mpr fun c hc => by simp [hall c hc]], .nil, rfl,
        by rw [List.filter_eq_self.mpr (by simpa using hall)], hs⟩
    · -- the oldest bucket goes first, then the rest of the loop
      rw [releaseReady_succ_of_taken hpeek hpop hheld]
      obtain ⟨hout, hkept⟩ := filter_perm_of_pop (fun c => sync && decide (now < c.ts)) hperm
        (by simpa using hheld)
      obtain ⟨rel, hrel, hsorted, hitems, hrest, hsound⟩ :=
        ih s' hs' (size_le_of_perm_cons hperm hsize)
      have htidy : Tidy (b :: s'.heap.toList) := hs.tidy.perm hperm.symm
      refine ⟨b :: rel, (hrel.cons b).trans hout.symm, List.pairwise_cons.mpr ⟨?_, hsorted⟩,
        by rw [hitems, List.flatMap_cons], hrest.trans hkept.symm, hsound⟩
      -- `b` is the least of the buckets and no other bucket has its rank
      intro c hc
      have hc' : c ∈ s'.heap.toList := (List.mem_filter.mp (hrel.subset hc)).1
      exact lt_of_le_of_ne (hmin c (hperm.symm.subset (List.mem_cons_of_mem b hc')))
        ((List.pairwise_cons.mp htidy.distinct).1 c hc')

/-- On buckets stamped with no NaN, not being after a time that is no NaN is being up to it. -/
theorem filter_not_lt_eq {bs : List (Bucket κ ν)} (hbs : ∀ c ∈ bs, c.ts.isNaN = false)
    (hnow : now.isNaN = false) :
    (bs.filter fun c => !decide (now < c.ts)) = bs.filter fun c => decide (c.ts ≤ now) :=
  List.filter_congr fun c hc => by
    rw [← decide_not, decide_eq_decide]
    exact Number.not_lt_iff_le hnow (hbs c hc)

theorem filter_lt_eq {bs : List (Bucket κ ν)} (hbs : ∀ c ∈ bs, c.ts.isNaN = false)
    (hnow : now.isNaN = false) :
    (bs.filter fun c => decide (now < c.ts)) = bs.filter fun c => !decide (c.ts ≤ now) :=
  List.filter_congr fun c hc => by
    rw [← decide_not, decide_eq_decide]
    exact (Number.not_le_iff_lt (hbs c hc) hnow).symm

/-- The releasing loop of a synchronized drain: with fuel for every bucket, it hands out the
items of exactly the buckets due by `now`, oldest first, and keeps the others. -/
theorem releaseReady_spec (hnow : now.isNaN = false) (fuel : Nat) (s : Stage κ ν) (hs : s.Sound)
    (hsize : s.heap.size ≤ fuel) :
    ∃ rel : List (Bucket κ ν), rel.Perm (s.heap.toList.filter fun c => decide (c.ts ≤ now)) ∧
      rel.Pairwise (fun c d => c.rank < d.rank) ∧
      (releaseReady true now fuel s).1 = rel.flatMap Bucket.items ∧
      (releaseReady true now fuel s).2.heap.toList.Perm
        (s.heap.toList.filter fun c => !decide (c.ts ≤ now)) ∧
      (releaseReady true now fuel s).2.Sound := by
  obtain ⟨rel, hrel, hsorted, hitems, hrest, hsound⟩ := releaseReady_releases true now fuel s hs hsize
  simp only [Bool.true_and] at hrel hrest
  rw [filter_not_lt_eq hs.tidy.ts hnow] at hrel
  rw [filter_lt_eq hs.tidy.ts hnow] at hrest
  exact ⟨rel, hrel, hsorted, hitems, hrest, hsound⟩

/-- The promoting loop of a drain, for any `next`: with fuel for every bucket, it moves exactly
the buckets not after `next` from `f` into `r`. -/
theorem promote_moves (next : Float) (fuel : Nat) (r f : Stage κ ν) (hr : r.Sound)
    (hf : f.Sound) (hdisj : Tidy (r.heap.toList ++ f.heap.toList)) (hsize : f.heap.size ≤ fuel) :
    (promote next fuel r f).1.heap.toList.Perm
        (r.heap.toList ++ f.heap.toList.filter fun c => !decide (next < c.ts)) ∧
      (promote next fuel r f).2.heap.toList.Perm
        (f.heap.toList.filter fun c => decide (next < c.ts)) ∧
      (promote next fuel r f).1.Sound ∧ (promote next fuel r f).2.Sound := by
  induction fuel generalizing r f with
  | zero =>
    have hnil : f.heap.toList = [] :=
      List.eq_nil_of_length_eq_zero (by rw [Array.length_toList]; omega)
    exact ⟨by simp [promote, hnil], by simp [promote, hnil], hr, hf⟩
  | succ fuel ih =>
    by_cases hne : f.heap.size = 0
    · have hnil : f.heap.toList = [] := by simpa using hne
      rw [promote_succ_of_empty (Stage.peek?_eq_none hne)]
      exact ⟨by simp [hnil], by simp [hnil], hr, hf⟩
    obtain ⟨b, f', hpop, hpeek, hperm, hf', hmin⟩ := Stage.pop?_spec hf hne
    by_cases hlate : next < b.ts
    · -- the oldest bucket stays, so every bucket does
      have hall := lt_ts_of_lt_oldest hf hmin hlate
      rw [promote_succ_of_late hpeek hlate]
      exact ⟨by rw [List.filter_eq_nil_iff.mpr fun c hc => by simp [hall c hc], List.append_nil],
        by rw [List.filter_eq_self.mpr (by simpa using hall)], hr, hf⟩
    · rw [promote_succ_of_due hpeek hpop hlate]
      obtain ⟨hdue, hkept⟩ :=
        filter_perm_of_pop (fun c => decide (next < c.ts)) hperm (by simpa using hlate)
      -- `b` moves over: the two stages together still hold the same tidy buckets
      have hall : Tidy (r.heap.toList ++ b :: f'.heap.toList) :=
        hdisj.perm (hperm.symm.append_left r.heap.toList)
      have hrb : Tidy (r.heap.toList ++ [b]) :=
        hall.sublist ((List.Sublist.refl _).append (List.singleton_sublist.mpr List.mem_cons_self))
      obtain ⟨hr'perm, hr'⟩ := Stage.adopt_spec hr hrb
      have hdisj' : Tidy ((r.adopt b).heap.toList ++ f'.heap.toList) :=
        hall.perm (by simpa using hr'perm.append_right f'.heap.toList)
      obtain ⟨h1, h2, h3, h4⟩ :=
        ih (r.adopt b) f' hr' hf' hdisj' (size_le_of_perm_cons hperm hsize)
      refine ⟨h1.trans ?_, h2.trans hkept.symm, h3, h4⟩
      calc List.Perm ((r.adopt b).heap.toList ++ f'.heap.toList.filter fun c => !decide (next < c.ts))
            ((r.heap.toList ++ [b]) ++ f'.heap.toList.filter fun c => !decide (next < c.ts)) :=
            hr'perm.append_right _
          _ = r.heap.toList ++ b :: f'.heap.toList.filter (fun c => !decide (next < c.ts)) := by
            simp
          List.Perm _ (r.heap.toList ++ f.heap.toList.filter fun c => !decide (next < c.ts)) :=
            hdue.symm.append_left _

/-- The promoting loop of a drain: with fuel for every bucket, it moves exactly the buckets due
by `now` from `f` into `r`. -/
theorem promote_spec (hnow : now.isNaN = false) (fuel : Nat) (r f : Stage κ ν) (hr : r.Sound)
    (hf : f.Sound) (hdisj : Tidy (r.heap.toList ++ f.heap.toList)) (hsize : f.heap.size ≤ fuel) :
    (promote now fuel r f).1.heap.toList.Perm
        (r.heap.toList ++ f.heap.toList.filter fun c => decide (c.ts ≤ now)) ∧
      (promote now fuel r f).2.heap.toList.Perm
        (f.heap.toList.filter fun c => !decide (c.ts ≤ now)) ∧
      (promote now fuel r f).1.Sound ∧ (promote now fuel r f).2.Sound := by
  rw [← filter_not_lt_eq hf.tidy.ts hnow, ← filter_lt_eq hf.tidy.ts hnow]
  exact promote_moves now fuel r f hr hf hdisj hsize

end Buffer

end CoSimBridge.Delivery
