import Mathlib
import CoSimBridge.Proofs.Delivery.Stepped
/-!
# The representation a buffer keeps

Each stage of a buffer is a heap of buckets with an index from timestamps to buckets.
`Buffer.Represented` is what the two stages keep: each is a heap of buckets marked in the index,
stamped with no NaN and at pairwise different timestamps, so that its index leads from a
timestamp to exactly the bucket at it (`Stage.Sound.indexed`); no timestamp has a bucket in
both stages; and each key stands once in its bucket.

A buffer keeps it along any calls whose windows never move `next` back and whose messages are
stamped with no NaN (`runOps_represented`), and every entry, so every item a drain hands out,
carries the value of the last message filed for its key at its timestamp. Neither condition can
be dropped (`stale_next_or_nan_stamp_splits_buckets`): an insert in a window whose `next` is
behind an earlier one opens a kept-aside bucket at the timestamp of a ready one, and a later
drain then hands out the older of two values; and every message stamped NaN opens a bucket of
its own, since NaN is `==` to nothing.

The invariant `Kept` adds to the representation what the proof carries along a run: the values
filed, the ready buckets bounded by every `next` still to come, and the kept-aside stage empty
when nothing is ever kept aside. One lemma per kind of call preserves it, and `Kept.runOps`
chains them.
-/

namespace CoSimBridge.Delivery

set_option autoImplicit false

variable {κ ν : Type}

/-! ## Calls on a buffer -/

/-- A call on a buffer, with the window it is made in. -/
inductive Op (κ ν : Type) where
  | insert (w : Window) (m : Item κ ν)
  | drain (w : Window)
  | terminate

namespace Op

/-- The `next` of the window a call is made in. -/
def next? : Op κ ν → Option Float
  | .insert w _ => some w.next
  | .drain w => some w.next
  | .terminate => none

/-- The timestamp of the message an insert carries. -/
def stamp? : Op κ ν → Option Float
  | .insert _ m => some m.ts
  | _ => none

/-- The `next` of each window, in the order of the calls. -/
def nexts (ops : List (Op κ ν)) : List Float := ops.filterMap next?

/-- The timestamps of the messages inserted. -/
def stamps (ops : List (Op κ ν)) : List Float := ops.filterMap stamp?

/-- What an insert in window `w` files into a live buffer with policy `p`: the message, at time
zero when the buffer is unsynchronized, or nothing when a synchronized buffer refuses a message
stamped after `next`. -/
def insertFiles (p : Policy) (sync : Bool) (w : Window) (m : Item κ ν) : List (Item κ ν) :=
  if sync = false then [⟨0, m.key, m.value⟩]
  else if p = .rejectFuture ∧ ¬ m.ts ≤ w.next then []
  else [m]

/-- The messages calls file into a fresh buffer, in order, until it is terminated. -/
def filed (p : Policy) (sync : Bool) : List (Op κ ν) → List (Item κ ν)
  | [] => []
  | .insert w m :: ops => insertFiles p sync w m ++ filed p sync ops
  | .drain _ :: ops => filed p sync ops
  | .terminate :: _ => []

theorem nexts_sublist_cons (op : Op κ ν) (ops : List (Op κ ν)) :
    (nexts ops).Sublist (nexts (op :: ops)) := by
  cases op with
  | insert w m => exact List.sublist_cons_self _ _
  | drain w => exact List.sublist_cons_self _ _
  | terminate => exact List.Sublist.refl _

theorem stamps_sublist_cons (op : Op κ ν) (ops : List (Op κ ν)) :
    (stamps ops).Sublist (stamps (op :: ops)) := by
  cases op with
  | insert w m => exact List.sublist_cons_self _ _
  | drain w => exact List.Sublist.refl _
  | terminate => exact List.Sublist.refl _

end Op

namespace Buffer

section Run

variable [BEq κ]

/-- The buffer after a call. -/
def apply (b : Buffer κ ν) : Op κ ν → Buffer κ ν
  | .insert w m => (b.insert w m.ts m.key m.value).2.1
  | .drain w => (b.drain w).2.1
  | .terminate => b.terminate

/-- The buffer after calls, in order. -/
def runOps (b : Buffer κ ν) (ops : List (Op κ ν)) : Buffer κ ν := ops.foldl apply b

end Run

/-- The representation of a buffer: each stage a heap of marked buckets at pairwise different
timestamps, none NaN; no timestamp with a bucket in both stages; each key once in its bucket. -/
structure Represented (b : Buffer κ ν) : Prop where
  ready : b.ready.Sound
  future : b.future.Sound
  apart : Tidy (b.ready.heap.toList ++ b.future.heap.toList)
  keys : ∀ c ∈ b.ready.heap.toList ++ b.future.heap.toList, (c.entries.map Prod.fst).Nodup

end Buffer

/-! ## The index of a stage -/

namespace Stage

/-- The bucket the index leads to from a timestamp. -/
def lookup (s : Stage κ ν) (ts : Float) : Option (Bucket κ ν) :=
  (s.find? ts).bind fun i => s.heap[i]?

/-- The index leads from each timestamp to the bucket at it, and to nothing from any other. -/
def Indexed (s : Stage κ ν) : Prop :=
  ∀ ts c, s.lookup ts = some c ↔ c ∈ s.heap.toList ∧ (c.ts == ts) = true

theorem Sound.indexed {s : Stage κ ν} (hs : s.Sound) : s.Indexed := by
  intro ts c
  constructor
  · intro h
    obtain ⟨i, hi, hc⟩ := Option.bind_eq_some_iff.mp h
    obtain ⟨hil, hp, -⟩ := Array.findIdx?_eq_some_iff_getElem.mp hi
    obtain ⟨-, rfl⟩ := Array.getElem?_eq_some_iff.mp hc
    exact ⟨by simp, (Bool.and_eq_true _ _ ▸ hp).2⟩
  · rintro ⟨hc, hct⟩
    obtain ⟨i, hi⟩ :=
      Option.isSome_iff_exists.mp ((find?_isSome_iff hs.tidy.indexed ts).mpr ⟨c, hc, hct⟩)
    obtain ⟨hil, hp, -⟩ := Array.findIdx?_eq_some_iff_getElem.mp hi
    -- the bucket found is at the timestamp too, and one timestamp is one bucket
    have hit : (s.heap[i].ts == ts) = true := (Bool.and_eq_true _ _ ▸ hp).2
    have hts := (Number.isNaN_eq_false_of_beq hct).2
    have hin : s.heap[i] ∈ s.heap.toList := by simp
    have heq : s.heap[i] = c := by
      refine hs.tidy.eq_of_rank_eq hin hc ?_
      rw [Bucket.rank, Bucket.rank, (Number.beq_iff_rank_eq (hs.tidy.ts _ hin) hts).mp hit,
        (Number.beq_iff_rank_eq (hs.tidy.ts c hc) hts).mp hct]
    simp [lookup, hi, Array.getElem?_eq_getElem hil, heq]

end Stage

/-! ## What both stages hold -/

/-- Buckets as the two stages of a buffer hold them after filing `ms`: tidy, each key once in
its bucket, and each entry the value of the last message of its key at its timestamp. -/
structure Stored (ms : List (Item κ ν)) (bs : List (Bucket κ ν)) : Prop where
  tidy : Tidy bs
  keys : ∀ c ∈ bs, (c.entries.map Prod.fst).Nodup
  latest : ∀ c ∈ bs, ∀ e ∈ c.entries, LatestAt ms c.ts e.1 e.2

section Stored

variable {ms : List (Item κ ν)} {bs bs' : List (Bucket κ ν)}

theorem Stored.subperm (h : Stored ms bs) (hs : bs'.Subperm bs) : Stored ms bs' := by
  obtain ⟨l, hl, hsub⟩ := hs
  have hmem : ∀ c ∈ bs', c ∈ bs := fun c hc => hsub.subset (hl.symm.subset hc)
  exact ⟨(h.tidy.sublist hsub).perm hl.symm, fun c hc => h.keys c (hmem c hc),
    fun c hc => h.latest c (hmem c hc)⟩

theorem Stored.empty : Stored ms ([] : List (Bucket κ ν)) :=
  ⟨⟨by simp, by simp, .nil⟩, by simp, by simp⟩

variable [BEq κ] [LawfulBEq κ]

theorem Stored.fileMessage {m : Item κ ν} (h : Stored ms bs) (hm : m.ts.isNaN = false) :
    Stored (ms ++ [m]) (fileMessage bs m) :=
  ⟨h.tidy.fileMessage hm, nodup_keys_fileMessage h.keys,
    latestAt_fileMessage h.tidy.ts h.latest h.keys hm⟩

end Stored

/-! ## What a run keeps -/

/-- What a buffer with policy `p` keeps after filing the messages `ms`, while the windows still
to come have the `next`s `later`. -/
structure Kept (p : Policy) (sync : Bool) (b : Buffer κ ν) (ms : List (Item κ ν))
    (later : List Float) : Prop where
  policy : b.policy = p
  synchronized : b.synchronized = sync
  ready : b.ready.Sound
  future : b.future.Sound
  stored : Stored ms (b.ready.heap.toList ++ b.future.heap.toList)
  due : sync = true → ∀ c ∈ b.ready.heap.toList, ∀ x ∈ later, c.ts ≤ x
  aside : sync = false ∨ p = .rejectFuture → b.future.heap.toList = []
  stopped : b.terminated = true → b.ready.heap.toList = [] ∧ b.future.heap.toList = []

namespace Kept

variable {p : Policy} {sync : Bool} {b : Buffer κ ν} {ms : List (Item κ ν)} {x : Float}
  {later : List Float}

theorem represented (h : Kept p sync b ms later) : b.Represented :=
  ⟨h.ready, h.future, h.stored.tidy, h.stored.keys⟩

theorem init (name : String) (p : Policy) (sync : Bool) :
    Kept p sync ({ name, policy := p, synchronized := sync } : Buffer κ ν) [] later where
  policy := rfl
  synchronized := rfl
  ready := Stage.sound_empty
  future := Stage.sound_empty
  stored := Stored.empty
  due _ := by simp
  aside _ := rfl
  stopped := by simp

/-- A terminated buffer holds nothing, so it keeps anything filed. -/
theorem of_stopped (h : Kept p sync b ms later) (ht : b.terminated = true)
    (ms' : List (Item κ ν)) (later' : List Float) : Kept p sync b ms' later' := by
  obtain ⟨hr, hf⟩ := h.stopped ht
  exact ⟨h.policy, h.synchronized, h.ready, h.future, by rw [hr, hf]; exact Stored.empty,
    fun _ => by simp [hr], fun _ => hf, h.stopped⟩

theorem terminate (h : Kept p sync b ms later) (ms' : List (Item κ ν)) (later' : List Float) :
    Kept p sync b.terminate ms' later' :=
  { policy := h.policy
    synchronized := h.synchronized
    ready := Stage.sound_empty
    future := Stage.sound_empty
    stored := Stored.empty
    due := fun _ => by simp [Buffer.terminate]
    aside := fun _ => rfl
    stopped := fun _ => ⟨rfl, rfl⟩ }

theorem tail (h : Kept p sync b ms (x :: later)) : Kept p sync b ms later :=
  { h with due := fun hs c hc y hy => h.due hs c hc y (List.mem_cons_of_mem x hy) }

variable [BEq κ] [LawfulBEq κ]

/-- Putting a filed message into the ready stage, when no kept-aside bucket has its timestamp
and it is due by every `next` to come. -/
theorem put_ready {m : Item κ ν} (h : Kept p sync b ms later) (hlive : b.terminated = false)
    (hm : m.ts.isNaN = false)
    (hfut : ∀ c ∈ b.future.heap.toList, (c.ts == m.ts) = false)
    (hdue : sync = true → ∀ x ∈ later, m.ts ≤ x) :
    Kept p sync { b with ready := (b.ready.put m.ts m.key m.value).1 } (ms ++ [m]) later := by
  obtain ⟨hperm, hsound⟩ := Stage.put_beside h.ready hm hfut
  exact {
    policy := h.policy
    synchronized := h.synchronized
    ready := hsound
    future := h.future
    stored := (h.stored.fileMessage hm).subperm hperm.subperm
    due := fun hs c hc x hx => by
      rcases Stage.ts_put h.ready hm c hc with ⟨c', hc', hts⟩ | hts
      · rw [hts]
        exact h.due hs c' hc' x hx
      · rw [hts]
        exact hdue hs x hx
    aside := h.aside
    stopped := fun ht => absurd (hlive.symm.trans ht) Bool.false_ne_true }

/-- Putting a filed message into the kept-aside stage of a synchronized buffer that defers,
when no ready bucket has its timestamp. -/
theorem put_future {m : Item κ ν} (h : Kept p sync b ms later) (hlive : b.terminated = false)
    (hm : m.ts.isNaN = false)
    (hready : ∀ c ∈ b.ready.heap.toList, (c.ts == m.ts) = false)
    (hdefer : sync = true ∧ p = .deferFuture) :
    Kept p sync { b with future := (b.future.put m.ts m.key m.value).1 } (ms ++ [m]) later := by
  obtain ⟨hperm, hsound⟩ := Stage.put_beside h.future hm hready
  have hstored : Stored (ms ++ [m])
      ((b.future.put m.ts m.key m.value).1.heap.toList ++ b.ready.heap.toList) :=
    ((h.stored.subperm List.perm_append_comm.subperm).fileMessage hm).subperm hperm.subperm
  exact {
    policy := h.policy
    synchronized := h.synchronized
    ready := h.ready
    future := hsound
    stored := hstored.subperm List.perm_append_comm.subperm
    due := h.due
    aside := fun hno => by
      obtain ⟨hs, hp⟩ := hdefer
      rcases hno with hno | hno
      · exact absurd (hs.symm.trans hno) (by decide)
      · exact absurd (hp.symm.trans hno) (by decide)
    stopped := fun ht => absurd (hlive.symm.trans ht) Bool.false_ne_true }

end Kept

/-! ## One call -/

namespace Buffer

variable [BEq κ] {b : Buffer κ ν}

theorem terminated_apply (ht : b.terminated = true) (op : Op κ ν) :
    (b.apply op).terminated = true := by
  cases op <;> simp [apply, insert, drain, terminate, ht]

theorem terminated_runOps (ops : List (Op κ ν)) (ht : b.terminated = true) :
    (b.runOps ops).terminated = true := by
  induction ops generalizing b with
  | nil => exact ht
  | cons op ops ih => exact ih (terminated_apply ht op)

theorem insert_of_unsynchronized (w : Window) (ts : Float) (k : κ) (v : ν)
    (hlive : b.terminated = false) (hsync : b.synchronized = false) :
    (b.insert w ts k v).2.1 = { b with ready := (b.ready.put 0 k v).1 } := by
  simp [insert, hlive, hsync]

end Buffer

namespace Kept

variable {p : Policy} {sync : Bool} {b : Buffer κ ν} {ms : List (Item κ ν)} {w : Window}
  {later : List Float}

variable [BEq κ]

/-- A terminated buffer ignores every call but another termination, which empties it again. -/
theorem apply_of_stopped (h : Kept p sync b ms later) (ht : b.terminated = true) (op : Op κ ν)
    (ms' : List (Item κ ν)) (later' : List Float) : Kept p sync (b.apply op) ms' later' := by
  cases op with
  | insert w m =>
    have hb : b.apply (.insert w m) = b := by simp [Buffer.apply, Buffer.insert, ht]
    rw [hb]
    exact h.of_stopped ht ms' later'
  | drain w =>
    have hb : b.apply (.drain w) = b := by simp [Buffer.apply, Buffer.drain, ht]
    rw [hb]
    exact h.of_stopped ht ms' later'
  | terminate => exact h.terminate ms' later'

/-- A drain of a live buffer hands out items whose values are the last filed for their keys at
their timestamps. -/
theorem drain_items (h : Kept p sync b ms later) (hlive : b.terminated = false) (w : Window) :
    ∃ items, (b.drain w).1 = .ok items ∧ ∀ it ∈ items, LatestAt ms it.ts it.key it.value := by
  obtain ⟨hout, -⟩ := Buffer.drain_of_live w hlive
  obtain ⟨rel, hrel, -, hitems, -, -⟩ :=
    Buffer.releaseReady_releases b.synchronized w.now b.ready.size b.ready h.ready le_rfl
  refine ⟨_, hout, fun it hit => ?_⟩
  rw [hitems] at hit
  -- every item comes from a ready bucket the drain released
  obtain ⟨c, hc, hitc⟩ := List.mem_flatMap.mp ((lastOfEachKey_sublist _).subset hit)
  obtain ⟨e, he, rfl⟩ := mem_items.mp hitc
  exact h.stored.latest c (List.mem_append_left _ (List.mem_filter.mp (hrel.subset hc)).1) e he

/-- A drain of a live buffer keeps the invariant. -/
theorem drain (h : Kept p sync b ms (w.next :: later)) (hlive : b.terminated = false)
    (hlater : sync = true → ∀ y ∈ later, w.next ≤ y) :
    Kept p sync (b.apply (.drain w)) ms later := by
  obtain ⟨-, hb'⟩ := Buffer.drain_of_live w hlive
  obtain ⟨-, -, -, -, hrest, hsound⟩ :=
    Buffer.releaseReady_releases b.synchronized w.now b.ready.size b.ready h.ready le_rfl
  generalize Buffer.releaseReady b.synchronized w.now b.ready.size b.ready = r at hb' hrest hsound
  -- the ready stage keeps a part of its buckets
  have hsub : (r.2.heap.toList ++ b.future.heap.toList).Subperm
      (b.ready.heap.toList ++ b.future.heap.toList) :=
    (hrest.append_right _).subperm.trans
      (List.filter_sublist.append (List.Sublist.refl _)).subperm
  obtain ⟨hq1, hq2, hsr, hsf⟩ := Buffer.promote_moves w.next b.future.size r.2 b.future hsound
    h.future (h.stored.subperm hsub).tidy le_rfl
  generalize Buffer.promote w.next b.future.size r.2 b.future = q at hb' hq1 hq2 hsr hsf
  -- then kept-aside buckets move over, so both stages together hold what they held
  have hsplit : ((b.future.heap.toList.filter fun c => !decide (w.next < c.ts)) ++
      b.future.heap.toList.filter fun c => decide (w.next < c.ts)).Perm b.future.heap.toList := by
    simpa using List.filter_append_perm (fun c => !decide (w.next < c.ts)) b.future.heap.toList
  have hq : (q.1.heap.toList ++ q.2.heap.toList).Perm (r.2.heap.toList ++ b.future.heap.toList) :=
    (hq1.append hq2).trans (by rw [List.append_assoc]; exact hsplit.append_left _)
  rw [Buffer.apply, hb']
  exact {
    policy := h.policy
    synchronized := h.synchronized
    ready := hsr
    future := hsf
    stored := h.stored.subperm (hq.subperm.trans hsub)
    due := fun hs c hc y hy => by
      rcases List.mem_append.mp (hq1.subset hc) with hc | hc
      · -- left from the ready stage: up to every `next` to come already
        exact h.due hs c (List.mem_filter.mp (hrest.subset hc)).1 y (List.mem_cons_of_mem _ hy)
      · -- moved over: not after this window's `next`, which is up to every later one
        obtain ⟨hcf, hnot⟩ := List.mem_filter.mp hc
        have hy' := hlater hs y hy
        have hle : c.ts ≤ w.next := (Number.not_lt_iff_le (Number.isNaN_eq_false_of_le hy').1
          (h.future.tidy.ts c hcf)).mp (by simpa using hnot)
        exact Number.le_of_le_of_le hle hy'
    aside := fun hno => (hq2.trans (by rw [h.aside hno]; rfl)).eq_nil
    stopped := fun ht => absurd (hlive.symm.trans ht) Bool.false_ne_true }

variable [LawfulBEq κ]

/-- An insert into a live buffer keeps the invariant, with what it files filed. -/
theorem insert {m : Item κ ν} (h : Kept p sync b ms (w.next :: later))
    (hlive : b.terminated = false) (hlater : sync = true → ∀ y ∈ later, w.next ≤ y)
    (hm : sync = true → m.ts.isNaN = false) :
    Kept p sync (b.apply (.insert w m)) (ms ++ Op.insertFiles p sync w m) later := by
  cases sync with
  | false =>
    -- an unsynchronized buffer files every message into its bucket at time zero
    rw [Buffer.apply, Buffer.insert_of_unsynchronized w m.ts m.key m.value hlive h.synchronized,
      Op.insertFiles, if_pos rfl]
    exact h.tail.put_ready (m := ⟨0, m.key, m.value⟩) hlive
      (by show (0 : Float).isNaN = false; decide +kernel) (by simp [h.aside (.inl rfl)]) nofun
  | true =>
    have hm' := hm rfl
    have hsync := h.synchronized
    by_cases hf : (b.future.find? m.ts).isSome = true
    · -- a kept-aside bucket has the timestamp: the message joins it
      obtain ⟨c', hc', hc'ts⟩ := (Stage.find?_isSome_iff h.future.tidy.indexed m.ts).mp hf
      have hdefer : p = .deferFuture := by
        cases hp : p with
        | rejectFuture => exact absurd (h.aside (.inr hp)) (List.ne_nil_of_mem hc')
        | deferFuture => rfl
      rw [Buffer.apply, (Buffer.insert_of_future w m.key m.value hlive hsync hf).2, Op.insertFiles,
        if_neg (by decide), if_neg (by rw [hdefer]; simp)]
      exact h.tail.put_future hlive hm'
        (fun c hc => h.stored.tidy.beq_false_of_append hm' hc hc' hc'ts) ⟨rfl, hdefer⟩
    have hfut : ∀ c ∈ b.future.heap.toList, (c.ts == m.ts) = false := by
      intro c hc
      rw [Bool.eq_false_iff]
      intro hct
      exact hf ((Stage.find?_isSome_iff h.future.tidy.indexed m.ts).mpr ⟨c, hc, hct⟩)
    by_cases hdue : m.ts ≤ w.next
    · -- due by `next`: the message goes to the ready stage
      rw [Buffer.apply, (Buffer.insert_of_due w m.key m.value hlive hsync (by simpa using hf)
        hdue).2, Op.insertFiles, if_neg (by decide), if_neg (by simp [hdue])]
      exact h.tail.put_ready hlive hm' hfut
        fun _ y hy => Number.le_of_le_of_le hdue (hlater rfl y hy)
    -- after `next`: the ready buckets are all up to `next`, so none has the timestamp
    have hready : ∀ c ∈ b.ready.heap.toList, (c.ts == m.ts) = false := by
      intro c hc
      rw [Bool.eq_false_iff]
      intro hct
      exact hdue (Number.le_of_beq_of_le hct (h.due rfl c hc w.next List.mem_cons_self))
    cases hp : p with
    | rejectFuture =>
      rw [Buffer.apply, (Buffer.insert_of_refused w m.key m.value hlive hsync (by simpa using hf)
        hdue (h.policy.trans hp)).2, Op.insertFiles, if_neg (by decide),
        if_pos ⟨rfl, hdue⟩, List.append_nil]
      exact hp ▸ h.tail
    | deferFuture =>
      rw [Buffer.apply, (Buffer.insert_of_deferred w m.key m.value hlive hsync (by simpa using hf)
        hdue (h.policy.trans hp)).2, Op.insertFiles, if_neg (by decide),
        if_neg (by simp)]
      exact hp ▸ h.tail.put_future hlive hm' hready ⟨rfl, hp⟩

/-- Along calls whose windows never move `next` back and whose messages are stamped with no NaN,
the invariant holds after the calls, with all the messages they filed. -/
theorem runOps (ops : List (Op κ ν)) : ∀ (b : Buffer κ ν) (ms : List (Item κ ν)),
    Kept p sync b ms (Op.nexts ops) →
    (sync = true → (Op.nexts ops).Pairwise (· ≤ ·)) →
    (sync = true → ∀ t ∈ Op.stamps ops, t.isNaN = false) →
    Kept p sync (b.runOps ops) (ms ++ Op.filed p sync ops) [] := by
  induction ops with
  | nil =>
    intro b ms h _ _
    simpa [Buffer.runOps, Op.filed, Op.nexts] using h
  | cons op ops ih =>
    intro b ms h hnext hstamp
    -- the calls after this one keep both conditions
    have hnext' : sync = true → (Op.nexts ops).Pairwise (· ≤ ·) :=
      fun hs => (hnext hs).sublist (Op.nexts_sublist_cons op ops)
    have hstamp' : sync = true → ∀ t ∈ Op.stamps ops, t.isNaN = false :=
      fun hs t ht => hstamp hs t ((Op.stamps_sublist_cons op ops).subset ht)
    by_cases ht : b.terminated = true
    · -- a terminated buffer stays so and holds nothing
      have hend := ih (b.apply op) ms (h.apply_of_stopped ht op ms _) hnext' hstamp'
      exact hend.of_stopped (Buffer.terminated_runOps ops (Buffer.terminated_apply ht op)) _ _
    have hlive : b.terminated = false := by simpa using ht
    cases op with
    | insert w m =>
      have hn : Op.nexts (.insert w m :: ops) = w.next :: Op.nexts ops := rfl
      rw [hn] at h hnext
      have h' := h.insert hlive (fun hs y hy => List.rel_of_pairwise_cons (hnext hs) hy)
        (fun hs => hstamp hs m.ts List.mem_cons_self)
      simpa [Buffer.runOps, Op.filed] using ih _ _ h' hnext' hstamp'
    | drain w =>
      have hn : Op.nexts (.drain w :: ops) = w.next :: Op.nexts ops := rfl
      rw [hn] at h hnext
      exact ih _ _ (h.drain hlive fun hs y hy => List.rel_of_pairwise_cons (hnext hs) hy)
        hnext' hstamp'
    | terminate =>
      have hend := ih (b.apply .terminate) ms (h.terminate ms _) hnext' hstamp'
      exact hend.of_stopped (Buffer.terminated_runOps ops rfl) _ _

end Kept

/-! ## Runs keep the representation -/

/-- A fresh buffer of any policy, synchronized or not, keeps its representation along every run
of inserts, drains and terminations, provided, when it is synchronized, that the windows never
move `next` back and no message is stamped NaN: each stage is a heap of buckets at pairwise
different timestamps whose index leads from a timestamp to exactly the bucket at it, no
timestamp has a bucket in both stages, and each key stands once in its bucket. Every entry
carries the value of the last message filed for its key at its timestamp, so a drain hands out,
for each key and timestamp, the value of the latest insert. -/
theorem runOps_represented [BEq κ] [LawfulBEq κ] (name : String) (p : Policy) (sync : Bool)
    (ops : List (Op κ ν)) (hnext : sync = true → (Op.nexts ops).Pairwise (· ≤ ·))
    (hstamp : sync = true → ∀ t ∈ Op.stamps ops, t.isNaN = false) :
    let b := ({ name, policy := p, synchronized := sync } : Buffer κ ν).runOps ops
    b.Represented ∧ b.ready.Indexed ∧ b.future.Indexed ∧
      (∀ c ∈ b.ready.heap.toList ++ b.future.heap.toList, ∀ e ∈ c.entries,
        LatestAt (Op.filed p sync ops) c.ts e.1 e.2) ∧
      ∀ w items, (b.drain w).1 = .ok items →
        ∀ it ∈ items, LatestAt (Op.filed p sync ops) it.ts it.key it.value := by
  intro b
  have h := Kept.runOps ops _ [] (Kept.init name p sync) hnext hstamp
  rw [List.nil_append] at h
  refine ⟨h.represented, h.ready.indexed, h.future.indexed, h.stored.latest, ?_⟩
  intro w items hdrain it hit
  cases ht : b.terminated with
  | true =>
    -- a terminated buffer refuses to drain
    simp [Buffer.drain, ht] at hdrain
  | false =>
    obtain ⟨items', hout, hlatest⟩ := h.drain_items ht w
    rw [hout, Except.ok.injEq] at hdrain
    exact hlatest it (hdrain ▸ hit)

/-- A deferring buffer with a message kept aside at 5 until a later window reaches it, a second
value of its key joining the kept-aside bucket, and a drain up to 5. -/
theorem runOps_represented_deferred_join :
    (Op.nexts ([.insert ⟨0, 3⟩ ⟨5, 1, 10⟩, .insert ⟨3, 10⟩ ⟨5, 1, 20⟩, .drain ⟨5, 10⟩] :
        List (Op Nat Nat))).Pairwise (· ≤ ·) ∧
      (∀ t ∈ Op.stamps ([.insert ⟨0, 3⟩ ⟨5, 1, 10⟩, .insert ⟨3, 10⟩ ⟨5, 1, 20⟩, .drain ⟨5, 10⟩] :
        List (Op Nat Nat)), t.isNaN = false) ∧
      (let b := ({ name := "in", policy := .deferFuture, synchronized := true } :
        Buffer Nat Nat).runOps [.insert ⟨0, 3⟩ ⟨5, 1, 10⟩, .insert ⟨3, 10⟩ ⟨5, 1, 20⟩, .drain ⟨5, 10⟩]
      b.Represented ∧ b.ready.Indexed ∧ b.future.Indexed ∧
        (∀ c ∈ b.ready.heap.toList ++ b.future.heap.toList, ∀ e ∈ c.entries,
          LatestAt (Op.filed .deferFuture true
            ([.insert ⟨0, 3⟩ ⟨5, 1, 10⟩, .insert ⟨3, 10⟩ ⟨5, 1, 20⟩, .drain ⟨5, 10⟩] :
              List (Op Nat Nat))) c.ts e.1 e.2) ∧
        ∀ w items, (b.drain w).1 = .ok items →
          ∀ it ∈ items, LatestAt (Op.filed .deferFuture true
            ([.insert ⟨0, 3⟩ ⟨5, 1, 10⟩, .insert ⟨3, 10⟩ ⟨5, 1, 20⟩, .drain ⟨5, 10⟩] :
              List (Op Nat Nat))) it.ts it.key it.value) := by
  have hnext : (Op.nexts ([.insert ⟨0, 3⟩ ⟨5, 1, 10⟩, .insert ⟨3, 10⟩ ⟨5, 1, 20⟩,
      .drain ⟨5, 10⟩] : List (Op Nat Nat))).Pairwise (· ≤ ·) := by
    decide +kernel
  have hstamp : ∀ t ∈ Op.stamps ([.insert ⟨0, 3⟩ ⟨5, 1, 10⟩, .insert ⟨3, 10⟩ ⟨5, 1, 20⟩,
      .drain ⟨5, 10⟩] : List (Op Nat Nat)), t.isNaN = false := by
    decide +kernel
  exact ⟨hnext, hstamp, runOps_represented "in" .deferFuture true _ (fun _ => hnext)
    (fun _ => hstamp)⟩

/-- Without the two conditions the representation breaks. Inserting `k` at 5 in a window with
`next` 10 and again, as `new`, in one with `next` 3 leaves a bucket at 5 in both stages, and the
drains that follow hand out the older value `old`. Two messages stamped NaN open two kept-aside
buckets. -/
theorem stale_next_or_nan_stamp_splits_buckets :
    (let b := ({ name := "ch", policy := .deferFuture } : Buffer String String).runOps
        [.insert ⟨0, 10⟩ ⟨1, "z", "z1"⟩, .insert ⟨0, 10⟩ ⟨5, "k", "old"⟩,
          .insert ⟨0, 3⟩ ⟨5, "k", "new"⟩];
      (b.ready.heap.toList.any (·.ts == 5) && b.future.heap.toList.any (·.ts == 5)) = true ∧
        ((b.apply (.drain ⟨0, 10⟩)).drain ⟨5, 10⟩).1.toOption.map (·.map (·.value)) =
          some ["z1", "old"]) ∧
      (({ name := "ch", policy := .deferFuture } : Buffer String String).runOps
        [.insert ⟨0, 10⟩ ⟨0 / 0, "k", "a"⟩, .insert ⟨0, 10⟩ ⟨0 / 0, "k", "b"⟩]).future.heap.toList.map
          (·.ts.isNaN) = [true, true] := by
  decide +kernel

end CoSimBridge.Delivery
