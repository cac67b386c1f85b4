import Mathlib
import CoSimBridge.Proofs.Delivery.Buckets
/-!
# The last message of each key

A drain hands out the items of its buckets, oldest bucket first, and keeps only the last item of
each key. `Delivers ms items` says what that must be for the released messages `ms`, in the
order they were inserted: one item per key that occurs, carrying the value of the last inserted
of that key's messages with the greatest timestamp and a timestamp `==` to theirs, ordered by
timestamp and, at equal timestamps, by the first message of the key there.
`delivers_of_files` proves it of `lastOfEachKey` over any buckets that file `ms` and stand in
strictly increasing order of timestamps.
-/

namespace CoSimBridge.Delivery

set_option autoImplicit false

variable {κ ν : Type}

theorem keys_items (b : Bucket κ ν) : b.items.map (·.key) = b.entries.map Prod.fst := by
  simp [Bucket.items, Function.comp_def]

theorem mem_items {b : Bucket κ ν} {it : Item κ ν} :
    it ∈ b.items ↔ ∃ e ∈ b.entries, it = ⟨b.ts, e.1, e.2⟩ := by
  simp only [Bucket.items, List.mem_map]
  constructor
  · rintro ⟨e, he, rfl⟩; exact ⟨e, he, rfl⟩
  · rintro ⟨e, he, rfl⟩; exact ⟨e, he, rfl⟩

theorem mem_keys_flatMap_items {rel : List (Bucket κ ν)} {k : κ} :
    k ∈ (rel.flatMap Bucket.items).map (·.key) ↔ ∃ b ∈ rel, k ∈ b.entries.map Prod.fst := by
  simp only [List.map_flatMap, List.mem_flatMap, keys_items]

variable [BEq κ]

/-- Among the messages `ms`, the last inserted of those with key `it.key` and the greatest
timestamp carries the value of `it` and a timestamp `==` to that of `it`. -/
def IsLatest (ms : List (Item κ ν)) (it : Item κ ν) : Prop :=
  ∃ pre m post, ms = pre ++ m :: post ∧ m.key = it.key ∧ m.value = it.value ∧
    (m.ts == it.ts) = true ∧ (∀ m' ∈ ms, m'.key = it.key → m'.ts ≤ m.ts) ∧
    ∀ m' ∈ post, m'.key = it.key → m'.ts < m.ts

/-- What a drain must hand out for the messages `ms` it releases, `ms` in insertion order: each
key of `ms` once, the latest message of the key, ordered by timestamp and, at `==` timestamps,
by the first message of the key there. -/
structure Delivers (ms : List (Item κ ν)) (items : List (Item κ ν)) : Prop where
  nodup : (items.map (·.key)).Nodup
  keys : ∀ k, k ∈ items.map (·.key) ↔ ∃ m ∈ ms, m.key = k
  latest : ∀ it ∈ items, IsLatest ms it
  sorted : items.Pairwise fun a b => a.ts < b.ts ∨
    ((a.ts == b.ts) = true ∧ firstIndex ms a.ts a.key < firstIndex ms b.ts b.key)

theorem lastOfEachKey_sublist (L : List (Item κ ν)) : (lastOfEachKey L).Sublist L := by
  induction L with
  | nil => exact .slnil
  | cons it rest ih =>
    rw [lastOfEachKey]
    split
    · exact ih.cons it
    · exact ih.cons_cons it

section LastOfEachKey

variable [LawfulBEq κ]

theorem mem_keys_lastOfEachKey (L : List (Item κ ν)) (k : κ) :
    k ∈ (lastOfEachKey L).map (·.key) ↔ k ∈ L.map (·.key) := by
  induction L with
  | nil => rfl
  | cons it rest ih =>
    rw [lastOfEachKey]
    split
    · rename_i h
      rw [ih, List.map_cons, List.mem_cons]
      refine ⟨.inr, ?_⟩
      rintro (rfl | hk)
      · -- the key of the dropped item comes again later
        obtain ⟨x, hx, hxk⟩ := List.any_eq_true.mp h
        exact List.mem_map.mpr ⟨x, hx, by simpa using hxk⟩
      · exact hk
    · rw [List.map_cons, List.map_cons, List.mem_cons, List.mem_cons, ih]

theorem nodup_keys_lastOfEachKey (L : List (Item κ ν)) :
    ((lastOfEachKey L).map (·.key)).Nodup := by
  induction L with
  | nil => exact List.nodup_nil
  | cons it rest ih =>
    rw [lastOfEachKey]
    split
    · exact ih
    · rename_i h
      rw [List.map_cons, List.nodup_cons]
      refine ⟨fun hk => h ?_, ih⟩
      obtain ⟨x, hx, hxk⟩ := List.mem_map.mp ((mem_keys_lastOfEachKey rest it.key).mp hk)
      exact List.any_eq_true.mpr ⟨x, hx, by simp [hxk]⟩

theorem lastOfEachKey_of_nodup {L : List (Item κ ν)} (h : (L.map (·.key)).Nodup) :
    lastOfEachKey L = L := by
  induction L with
  | nil => rfl
  | cons it rest ih =>
    rw [List.map_cons, List.nodup_cons] at h
    rw [lastOfEachKey, if_neg, ih h.2]
    intro hany
    obtain ⟨x, hx, hxk⟩ := List.any_eq_true.mp hany
    exact h.1 (List.mem_map.mpr ⟨x, hx, by simpa using hxk⟩)

/-- Of two lists, the first keeps only the keys that the second does not have. -/
theorem lastOfEachKey_append (A B : List (Item κ ν)) :
    lastOfEachKey (A ++ B) =
      lastOfEachKey (A.filter fun x => !B.any (·.key == x.key)) ++ lastOfEachKey B := by
  induction A with
  | nil => simp [lastOfEachKey]
  | cons a A ih =>
    rw [List.cons_append, lastOfEachKey, List.filter_cons]
    by_cases hB : B.any (·.key == a.key) = true
    · have hAB : (A ++ B).any (·.key == a.key) = true := by simp [List.any_append, hB]
      rw [if_pos hAB, ih, if_neg (by simp [hB])]
    · have hB' : B.any (·.key == a.key) = false := by simpa using hB
      -- an item of `A` with the key of `a` is not dropped for `B`, since `B` lacks that key
      have hsame : (fun x : Item κ ν => x.key == a.key) =
          fun x => !B.any (·.key == x.key) && x.key == a.key := by
        funext x
        by_cases hx : x.key = a.key
        · simp [hx, hB']
        · simp [hx]
      have hAB : (A ++ B).any (·.key == a.key) =
          (A.filter fun x => !B.any (·.key == x.key)).any (·.key == a.key) := by
        rw [List.any_append, hB', Bool.or_false, List.any_filter, ← hsame]
      rw [if_pos (show (!B.any (·.key == a.key)) = true by simp [hB']), lastOfEachKey.eq_2, hAB]
      split
      · exact ih
      · rw [ih, List.cons_append]

/-- An item kept from a run of buckets comes from a bucket no later bucket has its key in. -/
theorem exists_of_mem_lastOfEachKey_flatMap {rel : List (Bucket κ ν)}
    (hnd : ∀ b ∈ rel, (b.entries.map Prod.fst).Nodup) {it : Item κ ν}
    (h : it ∈ lastOfEachKey (rel.flatMap Bucket.items)) :
    ∃ pre b post, rel = pre ++ b :: post ∧ it ∈ b.items ∧
      ∀ b' ∈ post, it.key ∉ b'.entries.map Prod.fst := by
  induction rel with
  | nil => simp [lastOfEachKey] at h
  | cons b rest ih =>
    have hfilter : ((b.items.filter fun x =>
        !(rest.flatMap Bucket.items).any (·.key == x.key)).map (·.key)).Nodup := by
      refine List.Nodup.sublist (List.Sublist.map _ (List.filter_sublist)) ?_
      rw [keys_items]; exact hnd b List.mem_cons_self
    rw [List.flatMap_cons, lastOfEachKey_append, lastOfEachKey_of_nodup hfilter,
      List.mem_append] at h
    rcases h with h | h
    · obtain ⟨hit, hnew⟩ := List.mem_filter.mp h
      refine ⟨[], b, rest, rfl, hit, fun b' hb' hk => ?_⟩
      rw [← keys_items] at hk
      obtain ⟨x, hx, hxk⟩ := List.mem_map.mp hk
      have : (rest.flatMap Bucket.items).any (·.key == it.key) = true :=
        List.any_eq_true.mpr ⟨x, List.mem_flatMap.mpr ⟨b', hb', hx⟩, by simp [hxk]⟩
      simp [this] at hnew
    · obtain ⟨pre, b0, post, hrest, hit, hpost⟩ :=
        ih (fun b' hb' => hnd b' (List.mem_cons_of_mem _ hb')) h
      exact ⟨b :: pre, b0, post, by rw [hrest, List.cons_append], hit, hpost⟩

/-- Buckets that file the messages `ms` and stand in strictly increasing order of timestamps
hand out what a drain must. -/
theorem delivers_of_files {ms : List (Item κ ν)} {rel : List (Bucket κ ν)} (hf : Files ms rel)
    (hs : rel.Pairwise fun b c => b.rank < c.rank) :
    Delivers ms (lastOfEachKey (rel.flatMap Bucket.items)) where
  nodup := nodup_keys_lastOfEachKey _
  keys k := by
    rw [mem_keys_lastOfEachKey, mem_keys_flatMap_items]
    constructor
    · rintro ⟨b, hb, hk⟩
      obtain ⟨e, he, rfl⟩ := List.mem_map.mp hk
      obtain ⟨m, hm, hmk, -⟩ := (hf.latest b hb e he).exists
      exact ⟨m, hm, hmk⟩
    · rintro ⟨m, hm, rfl⟩
      obtain ⟨b, hb, -, hk⟩ := hf.cover m hm
      exact ⟨b, hb, hk⟩
  latest it hit := by
    obtain ⟨pre, b, post, rfl, hitb, hpost⟩ := exists_of_mem_lastOfEachKey_flatMap hf.nodup hit
    obtain ⟨e, he, rfl⟩ := mem_items.mp hitb
    have hb : b ∈ pre ++ b :: post := by simp
    obtain ⟨mpre, m, mpost, hms, hk, hv, hts, hlater⟩ := hf.latest b hb e he
    have hbn := hf.tidy.ts b hb
    have hmn := hf.msgs m (by rw [hms]; simp)
    have hr : Number.rank m.ts = b.rank := (Number.beq_iff_rank_eq hmn hbn).mp hts
    -- every bucket that has the key is at or before `b`, the last one handing it out
    have hbefore : ∀ m' ∈ ms, m'.key = e.1 → Number.rank m'.ts ≤ Number.rank m.ts := by
      intro m' hm' hk'
      obtain ⟨b', hb', hbt', hbk'⟩ := hf.cover m' hm'
      have hr' : b'.rank = Number.rank m'.ts :=
        (Number.beq_iff_rank_eq (hf.tidy.ts b' hb') (hf.msgs m' hm')).mp hbt'
      rw [← hr', hr]
      rcases List.mem_append.mp hb' with hb' | hb'
      · exact ((List.pairwise_append.mp hs).2.2 b' hb' b List.mem_cons_self).le
      · rcases List.mem_cons.mp hb' with rfl | hb'
        · exact le_rfl
        · exact absurd (hk' ▸ hbk') (hpost b' hb')
    refine ⟨mpre, m, mpost, hms, hk, hv, hts, fun m' hm' hk' => ?_, fun m' hm' hk' => ?_⟩
    · exact (Number.le_iff_rank_le (hf.msgs m' hm') hmn).mpr (hbefore m' hm' hk')
    · -- a later message of the key sits at another timestamp, so an earlier one
      have hm'ms : m' ∈ ms := by rw [hms]; simp [hm']
      have hne : Number.rank m'.ts ≠ Number.rank m.ts := fun heq => by
        have hbeq := (Number.beq_iff_rank_eq (hf.msgs m' hm'ms) hbn).mpr (heq.trans hr)
        rw [hlater m' hm' hk'] at hbeq
        exact Bool.false_ne_true hbeq
      exact (Number.lt_iff_rank_lt (hf.msgs m' hm'ms) hmn).mpr
        (lt_of_le_of_ne (hbefore m' hm'ms hk') hne)
  sorted := by
    refine List.Pairwise.sublist (lastOfEachKey_sublist _) (List.pairwise_flatMap.mpr ⟨?_, ?_⟩)
    · -- in one bucket the keys stand in the order of their first messages
      intro b hb
      have horder := hf.order b hb
      rw [List.pairwise_map] at horder
      unfold Bucket.items
      rw [List.pairwise_map]
      exact horder.imp fun hlt => .inr ⟨Number.beq_self (hf.tidy.ts b hb), hlt⟩
    · refine hs.imp_of_mem fun hb hc hlt x hx y hy => ?_
      obtain ⟨e, -, rfl⟩ := mem_items.mp hx
      obtain ⟨e', -, rfl⟩ := mem_items.mp hy
      exact .inl ((Number.lt_iff_rank_lt (hf.tidy.ts _ hb) (hf.tidy.ts _ hc)).mpr hlt)

end LastOfEachKey

end CoSimBridge.Delivery
