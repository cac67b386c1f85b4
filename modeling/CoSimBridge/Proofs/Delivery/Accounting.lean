import CoSimBridge.Proofs.Delivery.Representation
/-!
# What an observer counts

Every message a live buffer receives is accounted for: it is delivered, superseded (by a later
message of its key in its bucket, or at a drain by a later item of its key), discarded, or it is
still held as an entry of a bucket. The observer's totals keep this balance after every insert
and drain, and the depth it heard last is the number of buckets held; both hold for any policy,
either mode, and any windows and timestamps, NaN included, since they count entries and never
look at timestamps. Termination drops what is held without a report, so the balance ends there:
a terminated buffer holds nothing, discards every message silently and refuses to drain.

The counts rest on what the stage operations do to the number of entries held: `put` adds one
unless it replaces a key's value, `pop?` and `adopt` move one bucket, and the heap moves keep the
buckets, whatever their order.
-/

namespace CoSimBridge.Delivery

set_option autoImplicit false

variable {κ ν : Type}

/-! ## Entries held -/

namespace Stage

/-- The entries a stage holds: one per key of each bucket. -/
def held (s : Stage κ ν) : Nat := (s.heap.toList.map (·.entries.length)).sum

variable {s s' : Stage κ ν} {b : Bucket κ ν}

theorem held_of_perm (h : s.heap.toList.Perm s'.heap.toList) : s.held = s'.held :=
  (h.map _).sum_eq

@[simp] theorem held_empty : ({} : Stage κ ν).held = 0 := rfl

theorem held_add : (s.add b).held = s.held + b.entries.length := by
  have hp : (s.add b).heap.toList.Perm (s.heap.toList ++ [b]) := by
    simpa [add] using (Heap.push_perm Bucket.before s.heap b).toList
  simp [held, (hp.map _).sum_eq]

theorem held_unindex (ts : Float) : (s.unindex ts).held = s.held := by
  unfold held unindex
  simp only [Array.toList_map, List.map_map]
  congr 1
  apply List.map_congr_left
  intro c _
  simp only [Function.comp_apply]
  split <;> rfl

theorem held_adopt : (s.adopt b).held = s.held + b.entries.length := by
  rw [adopt, held_add, held_unindex]

/-- Releasing a bucket takes its entries out of the stage. -/
theorem held_pop (h : s.pop? = some (b, s')) : s.held = b.entries.length + s'.held := by
  obtain ⟨⟨b', h'⟩, hpop, hbs⟩ := Option.map_eq_some_iff.mp h
  simp only [Prod.mk.injEq] at hbs
  obtain ⟨rfl, rfl⟩ := hbs
  obtain ⟨-, hperm, -⟩ := Heap.pop?_eq_some hpop
  rw [held_unindex, held, held, ← (hperm.toList.map _).sum_eq]
  simp [Nat.add_comm]

end Stage

section Put

variable [BEq κ]

/-- A key's value is put in place of an old one, or the entries grow by one. -/
theorem length_putEntry (k : κ) (v : ν) (es : List (κ × ν)) :
    (putEntry k v es).1.length + (if (putEntry k v es).2 then 1 else 0) = es.length + 1 := by
  induction es with
  | nil => rfl
  | cons e rest ih =>
    obtain ⟨k', v'⟩ := e
    by_cases hk : (k' == k) = true
    · simp [putEntry, hk]
    · simp only [putEntry, hk, Bool.false_eq_true, if_false, List.length_cons]
      omega

/-- Putting a message adds an entry, unless it replaces the value of its key. -/
theorem Stage.held_put (s : Stage κ ν) (ts : Float) (k : κ) (v : ν) :
    (s.put ts k v).1.held + (if (s.put ts k v).2 then 1 else 0) = s.held + 1 := by
  unfold Stage.put
  cases hfind : s.find? ts with
  | none => simp [Stage.held_add]
  | some i =>
    -- the index the search answers is a position of the heap
    have hi : i < s.heap.size :=
      (Array.findIdx?_eq_some_iff_getElem.mp hfind).1
    have hput := length_putEntry k v s.heap[i].entries
    simp only [Array.getElem?_eq_getElem hi, Stage.held, Array.toList_setIfInBounds,
      List.map_set, List.sum_set]
    have hsplit := List.sum_take_add_sum_drop (s.heap.toList.map (·.entries.length)) i
    rw [List.drop_eq_getElem_cons (by simpa using hi)] at hsplit
    simp only [List.length_map, Array.length_toList, hi, if_true, List.sum_cons,
      List.getElem_map, Array.getElem_toList] at hsplit ⊢
    omega

end Put

/-! ## The loops of a drain -/

namespace Buffer

/-- The releasing loop hands out, as items, exactly the entries it takes from the stage. -/
theorem releaseReady_held (sync : Bool) (now : Float) (fuel : Nat) (s : Stage κ ν) :
    (releaseReady sync now fuel s).1.length + (releaseReady sync now fuel s).2.held = s.held := by
  induction fuel generalizing s with
  | zero => simp [releaseReady]
  | succ fuel ih =>
    rw [releaseReady]
    split
    · split
      · simp
      · split
        · rename_i bk s' hpop
          have := ih s'
          simp only [List.length_append, Bucket.items, List.length_map]
          rw [Stage.held_pop hpop]
          omega
        · simp
    · simp

/-- Moving kept-aside buckets into the ready stage keeps every entry. -/
theorem promote_held (next : Float) (fuel : Nat) (r f : Stage κ ν) :
    (promote next fuel r f).1.held + (promote next fuel r f).2.held = r.held + f.held := by
  induction fuel generalizing r f with
  | zero => simp [promote]
  | succ fuel ih =>
    rw [promote]
    split
    · split
      · rfl
      · split
        · rename_i bk f' hpop
          rw [ih, Stage.held_adopt, Stage.held_pop hpop]
          omega
        · rfl
    · rfl

/-! ## What a live buffer does -/

/-- The entries a buffer holds, in both stages. -/
def held (b : Buffer κ ν) : Nat := b.ready.held + b.future.held

variable [BEq κ] {b : Buffer κ ν}

/-- An insert into a live buffer either files the message, reporting it received, superseded if
it replaced its key's value, and the new depth, or refuses it, reporting it received and
discarded and keeping the buffer. -/
theorem insert_live (hlive : b.terminated = false) (w : Window) (ts : Float) (k : κ) (v : ν) :
    (∃ (b' : Buffer κ ν) (r : Bool), b.insert w ts k v =
        (.ok (), b', [.received] ++ (if r then [.superseded] else []) ++ [.depth b'.depth]) ∧
      b'.held + (if r then 1 else 0) = b.held + 1 ∧ b'.terminated = false) ∨
    ∃ f, b.insert w ts k v = (.error f, b, [.received, .discarded]) := by
  -- the four places a message can go, each a put into one stage
  have ready_put (t : Float) : b.held + 1 =
      ({ b with ready := (b.ready.put t k v).1 } : Buffer κ ν).held +
        (if (b.ready.put t k v).2 then 1 else 0) := by
    have := Stage.held_put b.ready t k v
    simp only [held]
    omega
  have future_put (t : Float) : b.held + 1 =
      ({ b with future := (b.future.put t k v).1 } : Buffer κ ν).held +
        (if (b.future.put t k v).2 then 1 else 0) := by
    have := Stage.held_put b.future t k v
    simp only [held]
    omega
  unfold insert
  simp only [hlive, Bool.false_eq_true, if_false]
  split_ifs
  · exact .inl ⟨_, _, rfl, (ready_put 0).symm, rfl⟩
  · exact .inl ⟨_, _, rfl, (future_put ts).symm, rfl⟩
  · exact .inl ⟨_, _, rfl, (ready_put ts).symm, rfl⟩
  · exact .inl ⟨_, _, rfl, (future_put ts).symm, rfl⟩
  · exact .inr ⟨_, rfl⟩

/-- A drain of a live buffer hands out items, reports the entries it released beyond them as
superseded, then the items as delivered and the new depth; the entries released leave the
buffer. -/
theorem drain_live (hlive : b.terminated = false) (w : Window) :
    ∃ items released b', b.drain w = (.ok items, b',
        List.replicate (released - items.length) .superseded ++
          [.delivered items.length, .depth b'.depth]) ∧
      items.length ≤ released ∧ b'.held + released = b.held ∧ b'.terminated = false := by
  have hheld := releaseReady_held b.synchronized w.now b.ready.size b.ready
  rcases hrel : releaseReady b.synchronized w.now b.ready.size b.ready with ⟨drained, ready⟩
  have hpro := promote_held w.next b.future.size ready b.future
  rw [hrel] at hheld
  refine ⟨lastOfEachKey drained, drained.length,
    { b with ready := (promote w.next b.future.size ready b.future).1,
             future := (promote w.next b.future.size ready b.future).2 },
    ?_, (lastOfEachKey_sublist _).length_le, ?_, hlive⟩
  · simp [drain, hlive, hrel]
  · simp only [held] at hheld ⊢
    omega

end Buffer

/-! ## The observer's totals -/

namespace Tally

variable (t : Tally)

@[simp] theorem recordAll_nil : t.recordAll [] = t := rfl

@[simp] theorem recordAll_cons (r : Report) (rs : List Report) :
    t.recordAll (r :: rs) = (t.record r).recordAll rs := rfl

@[simp] theorem recordAll_append (rs rs' : List Report) :
    t.recordAll (rs ++ rs') = (t.recordAll rs).recordAll rs' := List.foldl_append

@[simp] theorem recordAll_replicate_superseded (n : Nat) :
    t.recordAll (List.replicate n .superseded) = { t with superseded := t.superseded + n } := by
  induction n generalizing t with
  | zero => rfl
  | succ n ih => simp [List.replicate_succ, ih, record, Nat.add_assoc, Nat.add_comm 1]

end Tally

namespace Buffer

/-- The balance of a live buffer against its observer's totals: every message received is
delivered, superseded, discarded or held, and the depth heard last is the number of buckets. -/
structure Balanced (b : Buffer κ ν) (t : Tally) : Prop where
  live : b.terminated = false
  counts : t.received = t.delivered + t.superseded + t.discarded + b.held
  depth : t.depth = b.depth

theorem Balanced.init (name : String) (p : Policy) (sync : Bool) :
    Balanced ({ name, policy := p, synchronized := sync } : Buffer κ ν) {} :=
  ⟨rfl, by simp [held], rfl⟩

variable [BEq κ]

/-- What a call reports to the observer. -/
def reportsOf (b : Buffer κ ν) : Op κ ν → List Report
  | .insert w m => (b.insert w m.ts m.key m.value).2.2
  | .drain w => (b.drain w).2.2
  | .terminate => []

/-- The buffer after calls, with the observer's totals of what it reported. -/
def runTally (b : Buffer κ ν) (t : Tally) : List (Op κ ν) → Buffer κ ν × Tally
  | [] => (b, t)
  | op :: ops => (b.apply op).runTally (t.recordAll (b.reportsOf op)) ops

theorem runTally_fst (b : Buffer κ ν) (t : Tally) (ops : List (Op κ ν)) :
    (b.runTally t ops).1 = b.runOps ops := by
  induction ops generalizing b t with
  | nil => rfl
  | cons op ops ih => exact ih _ _

variable {b : Buffer κ ν} {t : Tally}

theorem Balanced.insert (h : Balanced b t) (w : Window) (ts : Float) (k : κ) (v : ν) :
    Balanced (b.insert w ts k v).2.1 (t.recordAll (b.insert w ts k v).2.2) := by
  have hc := h.counts
  rcases insert_live h.live w ts k v with ⟨b', r, hins, hheld, hlive⟩ | ⟨f, hins⟩
  · -- filed: received, superseded when it replaced a value, and the new depth
    rw [hins]
    refine ⟨hlive, ?_, by cases r <;> simp [Tally.record]⟩
    cases r <;> simp only [Bool.false_eq_true, if_false, if_true, List.append_nil,
      List.cons_append, List.nil_append, Tally.recordAll_cons, Tally.recordAll_nil,
      Tally.record] at hheld ⊢ <;> omega
  · -- refused: received and discarded, the buffer unchanged
    rw [hins]
    refine ⟨h.live, ?_, h.depth⟩
    simp only [Tally.recordAll_cons, Tally.recordAll_nil, Tally.record]
    omega

theorem Balanced.drain (h : Balanced b t) (w : Window) :
    Balanced (b.drain w).2.1 (t.recordAll (b.drain w).2.2) := by
  have hc := h.counts
  obtain ⟨items, released, b', hdr, hle, hheld, hlive⟩ := drain_live h.live w
  rw [hdr]
  refine ⟨hlive, ?_, by simp [Tally.record]⟩
  simp only [Tally.recordAll_append, Tally.recordAll_replicate_superseded,
    Tally.recordAll_cons, Tally.recordAll_nil, Tally.record]
  omega

/-- Each call other than termination keeps the balance. -/
theorem Balanced.apply (h : Balanced b t) (op : Op κ ν) (hop : op ≠ .terminate) :
    Balanced (b.apply op) (t.recordAll (b.reportsOf op)) := by
  cases op with
  | insert w m => exact h.insert w m.ts m.key m.value
  | drain w => exact h.drain w
  | terminate => exact absurd rfl hop

theorem Balanced.runTally (h : Balanced b t) (ops : List (Op κ ν))
    (hops : Op.terminate ∉ ops) :
    Balanced (b.runTally t ops).1 (b.runTally t ops).2 := by
  induction ops generalizing b t with
  | nil => exact h
  | cons op ops ih =>
    have hop : op ≠ .terminate := fun he => hops (he ▸ List.mem_cons_self)
    exact ih (h.apply op hop) (fun hm => hops (List.mem_cons_of_mem op hm))

/-! ## After termination -/

/-- Once terminated a buffer stays so and holds nothing, whatever calls follow. -/
theorem runOps_terminated (b : Buffer κ ν) (hb : b.terminated = true ∧ b.held = 0 ∧ b.depth = 0)
    (ops : List (Op κ ν)) :
    (b.runOps ops).terminated = true ∧ (b.runOps ops).held = 0 ∧ (b.runOps ops).depth = 0 := by
  induction ops generalizing b with
  | nil => exact hb
  | cons op ops ih =>
    apply ih
    cases op with
    | insert w m => simpa [apply, insert, hb.1] using hb
    | drain w => simpa [apply, drain, hb.1] using hb
    | terminate => simp [apply, terminate, held, depth, Stage.size]

theorem runOps_append_terminate (b : Buffer κ ν) (pre post : List (Op κ ν)) :
    b.runOps (pre ++ .terminate :: post) = (b.runOps pre).terminate.runOps post := by
  simp only [runOps, List.foldl_append, List.foldl_cons, apply]

/-- Delivery accounting. Along calls on a fresh buffer with no termination among them, the
observer's totals balance: every message received is delivered, superseded, discarded or still
held as an entry of a bucket, and the depth it heard last is the number of buckets held. Once
the buffer is terminated it holds nothing, an insert succeeds reporting only a discard, and a
drain fails with the terminated condition, reporting nothing. -/
theorem runTally_accounts (name : String) (p : Policy) (sync : Bool) (ops : List (Op κ ν)) :
    (Op.terminate ∉ ops →
      let r := ({ name, policy := p, synchronized := sync } : Buffer κ ν).runTally {} ops;
      r.2.received = r.2.delivered + r.2.superseded + r.2.discarded + r.1.held ∧
        r.2.depth = r.1.depth) ∧
    (∀ pre post, ops = pre ++ .terminate :: post →
      let b := ({ name, policy := p, synchronized := sync } : Buffer κ ν).runOps ops;
      b.held = 0 ∧ b.depth = 0 ∧
        (∀ w ts k v, b.insert w ts k v = (.ok (), b, [.discarded])) ∧
        ∀ w, ∃ f, b.drain w = (.error f, b, []) ∧ f.has .terminated) := by
  refine ⟨fun hops => ?_, fun pre post hsplit => ?_⟩
  · have h := (Balanced.init name p sync).runTally ops hops
    exact ⟨h.counts, h.depth⟩
  · -- the termination empties the buffer, and what follows keeps it so
    obtain ⟨hdone, hheld, hdepth⟩ := runOps_terminated
      ((({ name, policy := p, synchronized := sync } : Buffer κ ν).runOps pre).terminate)
      ⟨rfl, by simp [terminate, held], by simp [terminate, depth, Stage.size]⟩ post
    rw [hsplit, runOps_append_terminate]
    exact ⟨hheld, hdepth, fun w ts k v => by simp [insert, hdone],
      fun w => ⟨_, by rw [drain, if_pos hdone], by simp [Fault.has, Fault.conditions]⟩⟩

end Buffer

end CoSimBridge.Delivery
