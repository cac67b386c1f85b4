import Mathlib
import CoSimBridge.Proofs.Delivery.LastPerKey
import CoSimBridge.Proofs.Delivery.Stage
/-!
# Delivery in step with a session

A session calls a synchronized buffer along step times `t 0 < t 1 < ⋯`: its `k`-th drain, and
every insert after drain `k - 1` and before drain `k`, use the window from `t k` to `t (k + 1)`.
`expectedAnswers` says what such a run must answer in terms of the accepted messages alone: an
insert is refused exactly when the policy rejects future messages and the message is stamped
after the window's `next`, and a drain releases exactly the pending messages stamped up to its
`now` and delivers them as `Delivers` says. `runSteps_meets_expected` proves that the buffer
answers so, whatever its policy and the calls.

Along such a run the buffer keeps `Tracks`: its two stages hold between them exactly the buckets
of the pending messages, the ready ones due by `next` and the kept-aside ones after `now`.
-/

namespace CoSimBridge.Delivery

open Number (rank)

set_option autoImplicit false

variable {κ ν : Type}

/-- A call a session makes on a buffer. -/
inductive Call (κ ν : Type) where
  | insert (m : Item κ ν)
  | drain

/-- What a buffer answers to a call. -/
inductive Answer (κ ν : Type) where
  | inserted (r : Except Fault Unit)
  | drained (r : Except Fault (List (Item κ ν)))

/-- What a call must come to. -/
inductive Expected (κ ν : Type) where
  | accepted
  | refused
  | released (ms : List (Item κ ν))

/-- The number of drains among calls. -/
def Call.drains : List (Call κ ν) → Nat
  | [] => 0
  | .insert _ :: cs => drains cs
  | .drain :: cs => drains cs + 1

/-- What a run must answer under policy `p` along step times `t` from step `k` on, where
`pending` are the messages accepted and not yet released. -/
def expectedAnswers (p : Policy) (t : Nat → Float) (k : Nat) (pending : List (Item κ ν)) :
    List (Call κ ν) → List (Expected κ ν)
  | [] => []
  | .insert m :: cs =>
    if p = .rejectFuture ∧ t (k + 1) < m.ts then .refused :: expectedAnswers p t k pending cs
    else .accepted :: expectedAnswers p t k (pending ++ [m]) cs
  | .drain :: cs =>
    .released (pending.filter fun m => decide (m.ts ≤ t k)) ::
      expectedAnswers p t (k + 1) (pending.filter fun m => !decide (m.ts ≤ t k)) cs

/-- Two tidy groups of buckets never both have a bucket at one timestamp. -/
theorem Tidy.beq_false_of_append {xs ys : List (Bucket κ ν)} (h : Tidy (xs ++ ys)) {ts : Float}
    (hts : ts.isNaN = false) {c c' : Bucket κ ν} (hc : c ∈ xs) (hc' : c' ∈ ys)
    (hc'ts : (c'.ts == ts) = true) : (c.ts == ts) = false := by
  rw [Bool.eq_false_iff]
  intro hcts
  apply (List.pairwise_append.mp h.distinct).2.2 c hc c' hc'
  have hcn := h.ts c (List.mem_append_left _ hc)
  have hc'n := h.ts c' (List.mem_append_right _ hc')
  rw [Bucket.rank, Bucket.rank, (Number.beq_iff_rank_eq hcn hts).mp hcts,
    (Number.beq_iff_rank_eq hc'n hts).mp hc'ts]

theorem Stage.sound_empty : ({} : Stage κ ν).Sound where
  tidy := ⟨by simp, by simp, .nil⟩
  heap := by
    intro c _ x _ hx
    simp at hx

/-- After a put, a bucket stands where an old bucket stood or where the message does. -/
theorem rank_of_put {xs : List (Bucket κ ν)} {c : Bucket κ ν} {ts : Float}
    (P : Int ×ₗ Int ×ₗ Int → Prop) (h : (∃ c' ∈ xs, c.ts = c'.ts) ∨ c.ts = ts)
    (hold : ∀ c' ∈ xs, P c'.rank) (hnew : P (rank ts)) : P c.rank := by
  rcases h with ⟨c', hc', he⟩ | he
  · rw [Bucket.rank, he]
    exact hold c' hc'
  · rw [Bucket.rank, he]
    exact hnew

section Run

variable [BEq κ]

/-- Runs calls on a buffer along step times `t` from step `k` on: the next drain, and every call
before it, use the window from `t k` to `t (k + 1)`. -/
def Buffer.runSteps (t : Nat → Float) (k : Nat) (b : Buffer κ ν) :
    List (Call κ ν) → List (Answer κ ν)
  | [] => []
  | .insert m :: cs =>
    let r := b.insert ⟨t k, t (k + 1)⟩ m.ts m.key m.value
    .inserted r.1 :: runSteps t k r.2.1 cs
  | .drain :: cs =>
    let r := b.drain ⟨t k, t (k + 1)⟩
    .drained r.1 :: runSteps t (k + 1) r.2.1 cs

/-- An answer meets what was expected: an accepted insert succeeds, a refused one fails with an
ordering failure about a future message, and a drain delivers what it released. -/
def Answer.Meets : Answer κ ν → Expected κ ν → Prop
  | .inserted (.ok _), .accepted => True
  | .inserted (.error f), .refused => f.cls? = some .ordering ∧ f.has .futureMessage = true
  | .drained (.ok items), .released ms => Delivers ms items
  | _, _ => False

/-! ## What one call does to a live synchronized buffer -/

namespace Buffer

variable {b : Buffer κ ν} {ts : Float}

theorem insert_of_future (w : Window) (k : κ) (v : ν) (hlive : b.terminated = false)
    (hsync : b.synchronized = true) (hf : (b.future.find? ts).isSome = true) :
    (b.insert w ts k v).1 = .ok () ∧
      (b.insert w ts k v).2.1 = { b with future := (b.future.put ts k v).1 } := by
  simp [insert, hlive, hsync, hf]

theorem insert_of_due (w : Window) (k : κ) (v : ν) (hlive : b.terminated = false)
    (hsync : b.synchronized = true) (hf : (b.future.find? ts).isSome = false)
    (hdue : ts ≤ w.next) :
    (b.insert w ts k v).1 = .ok () ∧
      (b.insert w ts k v).2.1 = { b with ready := (b.ready.put ts k v).1 } := by
  simp [insert, hlive, hsync, hf, hdue]

theorem insert_of_deferred (w : Window) (k : κ) (v : ν) (hlive : b.terminated = false)
    (hsync : b.synchronized = true) (hf : (b.future.find? ts).isSome = false)
    (hlate : ¬ ts ≤ w.next) (hp : b.policy = .deferFuture) :
    (b.insert w ts k v).1 = .ok () ∧
      (b.insert w ts k v).2.1 = { b with future := (b.future.put ts k v).1 } := by
  simp [insert, hlive, hsync, hf, hlate, hp]

theorem insert_of_refused (w : Window) (k : κ) (v : ν) (hlive : b.terminated = false)
    (hsync : b.synchronized = true) (hf : (b.future.find? ts).isSome = false)
    (hlate : ¬ ts ≤ w.next) (hp : b.policy = .rejectFuture) :
    (b.insert w ts k v).1 = .error (Fault.ordering b.name (.wrap "" (.condition .futureMessage)
        (": timestamp " ++ ts.render ++ ", next step at " ++ w.next.render))) ∧
      (b.insert w ts k v).2.1 = b := by
  simp [insert, hlive, hsync, hf, hlate, hp]

theorem drain_of_live (w : Window) (hlive : b.terminated = false) :
    (b.drain w).1 =
        .ok (lastOfEachKey (releaseReady b.synchronized w.now b.ready.size b.ready).1) ∧
      (b.drain w).2.1 = { b with
        ready := (promote w.next b.future.size
          (releaseReady b.synchronized w.now b.ready.size b.ready).2 b.future).1
        future := (promote w.next b.future.size
          (releaseReady b.synchronized w.now b.ready.size b.ready).2 b.future).2 } := by
  simp only [drain, hlive]
  exact ⟨rfl, rfl⟩

end Buffer

/-! ## What a buffer keeps along a stepped run -/

/-- What a synchronized buffer with policy `p` keeps in window `w` while `pending` are the
messages it accepted and has not released. -/
structure Tracks (p : Policy) (b : Buffer κ ν) (w : Window) (pending : List (Item κ ν)) :
    Prop where
  policy : b.policy = p
  synchronized : b.synchronized = true
  live : b.terminated = false
  content : (b.ready.heap.toList ++ b.future.heap.toList).Perm (bucketsOf pending)
  ready : b.ready.Sound
  future : b.future.Sound
  due : ∀ c ∈ b.ready.heap.toList, c.rank ≤ rank w.next
  later : ∀ c ∈ b.future.heap.toList, rank w.now < c.rank
  rejecting : p = .rejectFuture → b.future.heap.toList = []
  stamped : ∀ m ∈ pending, m.ts.isNaN = false

theorem tracks_init (name : String) (p : Policy) (w : Window) :
    Tracks p ({ name, policy := p } : Buffer κ ν) w [] where
  policy := rfl
  synchronized := rfl
  live := rfl
  content := by simp
  ready := Stage.sound_empty
  future := Stage.sound_empty
  due := by simp
  later := by simp
  rejecting _ := rfl
  stamped := by simp

namespace Tracks

variable {p : Policy} {b : Buffer κ ν} {w : Window} {pending : List (Item κ ν)} {m : Item κ ν}

/-- A refused insert fails with an ordering failure about a future message and leaves the buffer
as it was. -/
theorem insert_refused (h : Tracks p b w pending) (hrej : p = .rejectFuture ∧ w.next < m.ts) :
    (∃ f, (b.insert w m.ts m.key m.value).1 = .error f ∧
      f.cls? = some .ordering ∧ f.has .futureMessage = true) ∧
      (b.insert w m.ts m.key m.value).2.1 = b := by
  obtain ⟨hnext, hm⟩ := Number.isNaN_eq_false_of_lt hrej.2
  -- under `rejectFuture` nothing is kept aside, so the index has no bucket to offer
  have hf : (b.future.find? m.ts).isSome = false := by
    rw [Bool.eq_false_iff, Ne, Stage.find?_isSome_iff h.future.tidy.indexed,
      h.rejecting hrej.1]
    simp
  have hlate : ¬ m.ts ≤ w.next := (Number.not_le_iff_lt hm hnext).mpr hrej.2
  obtain ⟨hres, hb'⟩ :=
    Buffer.insert_of_refused w m.key m.value h.live h.synchronized hf hlate (h.policy.trans hrej.1)
  exact ⟨⟨_, hres, rfl, rfl⟩, hb'⟩

variable [LawfulBEq κ]

theorem tidy (h : Tracks p b w pending) : Tidy (b.ready.heap.toList ++ b.future.heap.toList) :=
  (files_bucketsOf h.stamped).tidy.perm h.content

/-- An accepted insert succeeds, and the buffer then tracks the message too. -/
theorem insert_accepted (h : Tracks p b w pending) (hw : w.now < w.next)
    (hm : m.ts.isNaN = false) (hacc : ¬ (p = .rejectFuture ∧ w.next < m.ts)) :
    (b.insert w m.ts m.key m.value).1 = .ok () ∧
      Tracks p (b.insert w m.ts m.key m.value).2.1 w (pending ++ [m]) := by
  obtain ⟨hnow, hnext⟩ := Number.isNaN_eq_false_of_lt hw
  have hms : ∀ m' ∈ pending ++ [m], m'.ts.isNaN = false := by
    intro m' hm'
    rcases List.mem_append.mp hm' with hm' | hm'
    · exact h.stamped m' hm'
    · rw [List.mem_singleton.mp hm']
      exact hm
  have hmnext : rank w.now < rank w.next := (Number.lt_iff_rank_lt hnow hnext).mp hw
  by_cases hf : (b.future.find? m.ts).isSome = true
  · -- a bucket kept aside has the timestamp: the message joins it
    obtain ⟨c', hc', hc'ts⟩ := (Stage.find?_isSome_iff h.future.tidy.indexed m.ts).mp hf
    have hready : ∀ c ∈ b.ready.heap.toList, (c.ts == m.ts) = false :=
      fun c hc => h.tidy.beq_false_of_append hm hc hc' hc'ts
    obtain ⟨hcontent, hsound, hts⟩ :=
      Stage.put_files h.future hms (List.perm_append_comm.trans h.content) hready
    obtain ⟨hok, hb'⟩ := Buffer.insert_of_future w m.key m.value
      h.live h.synchronized hf
    refine ⟨hok, ?_⟩
    rw [hb']
    exact {
      policy := h.policy
      synchronized := h.synchronized
      live := h.live
      content := List.perm_append_comm.trans hcontent
      ready := h.ready
      future := hsound
      due := h.due
      -- the message's timestamp is that of the bucket it joined
      later := fun c hc => rank_of_put (rank w.now < ·) (hts c hc) h.later
        ((Number.beq_iff_rank_eq (h.future.tidy.ts c' hc') hm).mp hc'ts ▸ h.later c' hc')
      rejecting := fun hrej => absurd hc' (by rw [h.rejecting hrej]; simp)
      stamped := hms }
  have hfut : ∀ c ∈ b.future.heap.toList, (c.ts == m.ts) = false := by
    intro c hc
    rw [Bool.eq_false_iff]
    intro hct
    exact hf ((Stage.find?_isSome_iff h.future.tidy.indexed m.ts).mpr ⟨c, hc, hct⟩)
  by_cases hdue : m.ts ≤ w.next
  · -- due by `next`: the message goes to the ready stage
    obtain ⟨hcontent, hsound, hts⟩ := Stage.put_files h.ready hms h.content hfut
    obtain ⟨hok, hb'⟩ := Buffer.insert_of_due w m.key m.value
      h.live h.synchronized (by simpa using hf) hdue
    refine ⟨hok, ?_⟩
    rw [hb']
    exact {
      policy := h.policy
      synchronized := h.synchronized
      live := h.live
      content := hcontent
      ready := hsound
      future := h.future
      due := fun c hc => rank_of_put (· ≤ rank w.next) (hts c hc) h.due
        ((Number.le_iff_rank_le hm hnext).mp hdue)
      later := h.later
      rejecting := h.rejecting
      stamped := hms }
  · -- stamped after `next` and accepted: the policy defers it
    have hlate : w.next < m.ts := (Number.not_le_iff_lt hm hnext).mp hdue
    have hdefer : b.policy = .deferFuture := by
      cases hp : b.policy with
      | rejectFuture => exact absurd ⟨h.policy.symm.trans hp, hlate⟩ hacc
      | deferFuture => rfl
    have hready : ∀ c ∈ b.ready.heap.toList, (c.ts == m.ts) = false := by
      intro c hc
      rw [Bool.eq_false_iff]
      intro hct
      have hle := h.due c hc
      rw [Bucket.rank, (Number.beq_iff_rank_eq (h.ready.tidy.ts c hc) hm).mp hct] at hle
      exact absurd ((Number.lt_iff_rank_lt hnext hm).mp hlate) (not_lt.mpr hle)
    obtain ⟨hcontent, hsound, hts⟩ :=
      Stage.put_files h.future hms (List.perm_append_comm.trans h.content) hready
    obtain ⟨hok, hb'⟩ := Buffer.insert_of_deferred w m.key m.value
      h.live h.synchronized (by simpa using hf) hdue hdefer
    refine ⟨hok, ?_⟩
    rw [hb']
    exact {
      policy := h.policy
      synchronized := h.synchronized
      live := h.live
      content := List.perm_append_comm.trans hcontent
      ready := h.ready
      future := hsound
      due := h.due
      later := fun c hc => rank_of_put (rank w.now < ·) (hts c hc) h.later
        (hmnext.trans ((Number.lt_iff_rank_lt hnext hm).mp hlate))
      rejecting := fun hrej => absurd (h.policy.trans hrej) (by rw [hdefer]; decide)
      stamped := hms }

/-- A drain in window `now`–`next` delivers the pending messages stamped up to `now`, and the
buffer then tracks the others in the window from `next` to any later `next'`. -/
theorem drain {now next next' : Float} (h : Tracks p b ⟨now, next⟩ pending) (hw : now < next)
    (hw' : next < next') :
    (∃ items, (b.drain ⟨now, next⟩).1 = .ok items ∧
      Delivers (pending.filter fun m => decide (m.ts ≤ now)) items) ∧
      Tracks p (b.drain ⟨now, next⟩).2.1 ⟨next, next'⟩
        (pending.filter fun m => !decide (m.ts ≤ now)) := by
  obtain ⟨hnow, hnext⟩ := Number.isNaN_eq_false_of_lt hw
  have hnext' := (Number.isNaN_eq_false_of_lt hw').2
  obtain ⟨hout, hb'⟩ := Buffer.drain_of_live ⟨now, next⟩ h.live
  rw [h.synchronized] at hout hb'
  obtain ⟨rel, hrel, hsorted, hitems, hrest, hsound⟩ :=
    Buffer.releaseReady_spec hnow b.ready.size b.ready h.ready le_rfl
  generalize Buffer.releaseReady true now b.ready.size b.ready = r at hout hb' hitems hrest hsound
  -- nothing kept aside is due by `now`
  have hfut : (b.future.heap.toList.filter fun c => decide (c.ts ≤ now)) = [] := by
    rw [List.filter_eq_nil_iff]
    intro c hc hle
    have hle' := (Number.le_iff_rank_le (h.future.tidy.ts c hc) hnow).mp (of_decide_eq_true hle)
    exact absurd (h.later c hc) (not_lt.mpr hle')
  have hfut' : (b.future.heap.toList.filter fun c => !decide (c.ts ≤ now)) =
      b.future.heap.toList :=
    List.filter_eq_self.mpr fun c hc => by simpa using List.filter_eq_nil_iff.mp hfut c hc
  -- whether a timestamp is due cannot tell `==` timestamps apart
  have hp : ∀ x y : Float, x.isNaN = false → y.isNaN = false → (x == y) = true →
      decide (x ≤ now) = decide (y ≤ now) := by
    intro x y hx hy hxy
    rw [decide_eq_decide, Number.le_iff_rank_le hx hnow, Number.le_iff_rank_le hy hnow,
      (Number.beq_iff_rank_eq hx hy).mp hxy]
  have hp' : ∀ x y : Float, x.isNaN = false → y.isNaN = false → (x == y) = true →
      (!decide (x ≤ now)) = !decide (y ≤ now) := by
    intro x y hx hy hxy
    rw [hp x y hx hy hxy]
  -- the released buckets are those of the released messages
  have hrelB : rel.Perm (bucketsOf (pending.filter fun m => decide (m.ts ≤ now))) := by
    rw [bucketsOf_filter h.stamped _ hp]
    calc List.Perm rel (b.ready.heap.toList.filter fun c => decide (c.ts ≤ now)) := hrel
      _ = (b.ready.heap.toList ++ b.future.heap.toList).filter fun c => decide (c.ts ≤ now) := by
          rw [List.filter_append, hfut, List.append_nil]
      List.Perm _ _ := h.content.filter _
  have hreleased : ∀ m ∈ pending.filter fun m => decide (m.ts ≤ now), m.ts.isNaN = false :=
    fun m hm => h.stamped m (List.mem_of_mem_filter hm)
  refine ⟨⟨_, by rw [hout, hitems], delivers_of_files ((files_bucketsOf hreleased).perm hrelB)
    hsorted⟩, ?_⟩
  -- then the kept-aside buckets due by `next` move over
  have hdisj : Tidy (r.2.heap.toList ++ b.future.heap.toList) :=
    (h.tidy.sublist (List.filter_sublist.append (List.Sublist.refl _))).perm
      (hrest.append_right _)
  obtain ⟨hpr, hpf, hsr, hsf⟩ :=
    Buffer.promote_spec hnext b.future.size r.2 b.future hsound h.future hdisj le_rfl
  generalize Buffer.promote next b.future.size r.2 b.future = q at hb' hpr hpf hsr hsf
  have hnn' : rank next < rank next' := (Number.lt_iff_rank_lt hnext hnext').mp hw'
  rw [hb']
  exact {
    policy := h.policy
    synchronized := rfl
    live := h.live
    content := by
      rw [bucketsOf_filter h.stamped _ hp']
      calc List.Perm (q.1.heap.toList ++ q.2.heap.toList)
            ((r.2.heap.toList ++ b.future.heap.toList.filter fun c => decide (c.ts ≤ next)) ++
              b.future.heap.toList.filter fun c => !decide (c.ts ≤ next)) := hpr.append hpf
        _ = r.2.heap.toList ++ ((b.future.heap.toList.filter fun c => decide (c.ts ≤ next)) ++
              b.future.heap.toList.filter fun c => !decide (c.ts ≤ next)) :=
          List.append_assoc _ _ _
        List.Perm _ (r.2.heap.toList ++ b.future.heap.toList) :=
          (List.filter_append_perm _ _).append_left _
        List.Perm _ ((b.ready.heap.toList.filter fun c => !decide (c.ts ≤ now)) ++
            b.future.heap.toList) := hrest.append_right _
        _ = (b.ready.heap.toList ++ b.future.heap.toList).filter
            fun c => !decide (c.ts ≤ now) := by rw [List.filter_append, hfut']
        List.Perm _ _ := h.content.filter _
    ready := hsr
    future := hsf
    due := by
      intro c hc
      rcases List.mem_append.mp (hpr.subset hc) with hc | hc
      · -- left over from the ready stage: due by the old `next`
        exact (h.due c (List.mem_of_mem_filter (hrest.subset hc))).trans hnn'.le
      · -- moved over: due by the old `next` too
        obtain ⟨hc, hle⟩ := List.mem_filter.mp hc
        have hle' := (Number.le_iff_rank_le (h.future.tidy.ts c hc) hnext).mp
          (of_decide_eq_true hle)
        exact hle'.trans hnn'.le
    later := by
      intro c hc
      obtain ⟨hc, hlate⟩ := List.mem_filter.mp (hpf.subset hc)
      have hnle : ¬ c.ts ≤ next := by simpa using hlate
      exact (Number.lt_iff_rank_lt hnext (h.future.tidy.ts c hc)).mp
        ((Number.not_le_iff_lt (h.future.tidy.ts c hc) hnext).mp hnle)
    rejecting := by
      intro hrej
      have hpf' := hpf
      rw [h.rejecting hrej, List.filter_nil] at hpf'
      exact hpf'.eq_nil
    stamped := fun m hm => h.stamped m (List.mem_of_mem_filter hm) }

end Tracks

/-- The run from any tracked buffer answers as expected, as long as the step times rise through
every window the calls reach. -/
theorem runSteps_meets_of_tracks [LawfulBEq κ] {p : Policy} (t : Nat → Float)
    (cs : List (Call κ ν)) :
    ∀ (k : Nat) (b : Buffer κ ν) (pending : List (Item κ ν)),
      Tracks p b ⟨t k, t (k + 1)⟩ pending →
      (∀ j, k ≤ j → j ≤ k + Call.drains cs → t j < t (j + 1)) →
      (∀ m, Call.insert m ∈ cs → m.ts.isNaN = false) →
      List.Forall₂ Answer.Meets (b.runSteps t k cs) (expectedAnswers p t k pending cs) := by
  induction cs with
  | nil =>
    intro k b pending _ _ _
    exact .nil
  | cons c cs ih =>
    intro k b pending h ht hts
    have hts' : ∀ m, Call.insert m ∈ cs → m.ts.isNaN = false :=
      fun m hm => hts m (List.mem_cons_of_mem _ hm)
    cases c with
    | insert m =>
      have hw : t k < t (k + 1) := ht k le_rfl (Nat.le_add_right _ _)
      have hm := hts m List.mem_cons_self
      simp only [Buffer.runSteps, expectedAnswers]
      by_cases hrej : p = .rejectFuture ∧ t (k + 1) < m.ts
      · -- refused: the buffer is left as it was
        obtain ⟨⟨f, hres, hcls, hhas⟩, hb'⟩ := h.insert_refused hrej
        rw [if_pos hrej, hres, hb']
        exact .cons ⟨hcls, hhas⟩ (ih k b pending h ht hts')
      · -- accepted: the buffer tracks the message from now on
        obtain ⟨hres, h'⟩ := h.insert_accepted hw hm hrej
        rw [if_neg hrej, hres]
        exact .cons trivial (ih k _ _ h' ht hts')
    | drain =>
      have hw : t k < t (k + 1) := ht k le_rfl (by simp [Call.drains])
      have hw' : t (k + 1) < t (k + 1 + 1) := ht (k + 1) (Nat.le_succ k) (by simp [Call.drains])
      obtain ⟨⟨items, hres, hdel⟩, h'⟩ := h.drain hw hw'
      simp only [Buffer.runSteps, expectedAnswers]
      rw [hres]
      refine .cons hdel (ih (k + 1) _ _ h' ?_ hts')
      intro j hj hj'
      exact ht j (by omega) (by simp only [Call.drains]; omega)

/-- Along step times that rise through every window its calls reach, a fresh synchronized buffer
of either policy answers every call as `expectedAnswers` says: an insert fails, with an ordering
failure about a future message, exactly when the policy rejects future messages and the message
is stamped after the window's `next`; a drain releases exactly the accepted messages not yet
released and stamped up to its `now`, and delivers them as `Delivers` says. -/
theorem runSteps_meets_expected [LawfulBEq κ] (name : String) (p : Policy) (t : Nat → Float)
    (cs : List (Call κ ν)) (ht : ∀ j ≤ Call.drains cs, t j < t (j + 1))
    (hts : ∀ m, Call.insert m ∈ cs → m.ts.isNaN = false) :
    List.Forall₂ Answer.Meets (({ name, policy := p } : Buffer κ ν).runSteps t 0 cs)
      (expectedAnswers p t 0 [] cs) :=
  runSteps_meets_of_tracks t cs 0 _ [] (tracks_init name p _) (fun j _ hj => ht j (by omega)) hts

/-- Steps at `0, 1, 2, 3` under `rejectFuture`: a message for the coming step, one for a later
step, and two drains. -/
theorem runSteps_meets_expected_of_reject_run :
    (∀ j ≤ Call.drains [.insert ⟨0.5, 1, 10⟩, .insert ⟨3, 2, 20⟩, .drain, .drain],
        (fun i : Nat => i.toFloat) j < (fun i : Nat => i.toFloat) (j + 1)) ∧
      (∀ m, Call.insert m ∈
          ([.insert ⟨0.5, 1, 10⟩, .insert ⟨3, 2, 20⟩, .drain, .drain] : List (Call Nat Nat)) →
        m.ts.isNaN = false) ∧
      List.Forall₂ Answer.Meets
        (({ name := "in", policy := .rejectFuture } : Buffer Nat Nat).runSteps
          (fun i : Nat => i.toFloat) 0
          [.insert ⟨0.5, 1, 10⟩, .insert ⟨3, 2, 20⟩, .drain, .drain])
        (expectedAnswers .rejectFuture (fun i : Nat => i.toFloat) 0 []
          [.insert ⟨0.5, 1, 10⟩, .insert ⟨3, 2, 20⟩, .drain, .drain]) := by
  have ht : ∀ j ≤ Call.drains
      ([.insert ⟨0.5, 1, 10⟩, .insert ⟨3, 2, 20⟩, .drain, .drain] : List (Call Nat Nat)),
      (fun i : Nat => i.toFloat) j < (fun i : Nat => i.toFloat) (j + 1) := by
    decide
  have hts : ∀ m, Call.insert m ∈
      ([.insert ⟨0.5, 1, 10⟩, .insert ⟨3, 2, 20⟩, .drain, .drain] : List (Call Nat Nat)) →
      m.ts.isNaN = false := by
    intro m hm
    simp only [List.mem_cons, Call.insert.injEq, reduceCtorEq, List.not_mem_nil, or_false] at hm
    rcases hm with rfl | rfl <;> decide
  exact ⟨ht, hts, runSteps_meets_expected "in" .rejectFuture _ _ ht hts⟩

end Run

end CoSimBridge.Delivery
