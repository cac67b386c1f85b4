import Mathlib
import CoSimBridge.Delivery.Outbox
/-!
# Last is best, in first-put order

Between two flushes an outbox answers each put with whether its key was queued already, holds
each key once, and keeps for it the value of its last put at the place of its first put.
`latest ps` is that queue for the puts `ps`, stated without the outbox: the keys of `ps` without
repeats, first occurrence first, each with the value its last put carries. One put moves the
outbox from `latest ps` to `latest (ps ++ [(k, v)])` (`put_latest`), hence so does any run of
puts (`putAll_latest`). A flush sends the queue in order up to the first send that fails
(`SentInOrder`) and leaves the outbox empty (`putAll_flush`).
-/

namespace CoSimBridge.Delivery.Outbox

set_option autoImplicit false

variable {κ ν ε : Type}

/-! ## Sending until a send fails -/

/-- What sending the queue `q` in order hands to `send` and answers, `send` told each message's
place from `place` on: all of `q` when no send fails, else the messages up to the first whose
send fails, with its failure. -/
def SentInOrder (send : Nat → κ → ν → Option ε) (place : Nat) (q : List (κ × ν)) :
    List (κ × ν) × Option ε → Prop
  | (sent, none) => sent = q ∧ ∀ i (h : i < q.length), send (place + i) q[i].1 q[i].2 = none
  | (sent, some e) => ∃ pre p post, q = pre ++ p :: post ∧ sent = pre ++ [p] ∧
      (∀ i (h : i < pre.length), send (place + i) pre[i].1 pre[i].2 = none) ∧
      send (place + pre.length) p.1 p.2 = some e

/-- A message whose send went through, followed by messages whose sends from the next place on
went through. -/
theorem sends_cons_ok {send : Nat → κ → ν → Option ε} {place : Nat} {k : κ} {v : ν}
    {pre : List (κ × ν)} (hs : send place k v = none)
    (hok : ∀ i (h : i < pre.length), send (place + 1 + i) pre[i].1 pre[i].2 = none) :
    ∀ i (h : i < ((k, v) :: pre).length),
      send (place + i) ((k, v) :: pre)[i].1 ((k, v) :: pre)[i].2 = none
  | 0, _ => hs
  | i + 1, hi => by
    have hpre := hok i (by simpa using hi)
    rwa [show place + 1 + i = place + (i + 1) by omega] at hpre

/-- Sending stops at the first failure, after handing the failed message to `send`. -/
theorem sentInOrder_sendUntilFailure (send : Nat → κ → ν → Option ε) :
    ∀ (place : Nat) (q : List (κ × ν)), SentInOrder send place q (sendUntilFailure send place q)
  | place, [] => ⟨rfl, fun i h => absurd h (Nat.not_lt_zero i)⟩
  | place, (k, v) :: rest => by
    cases hs : send place k v with
    | some e =>
      simp only [sendUntilFailure, hs]
      exact ⟨[], (k, v), rest, rfl, rfl, fun i h => absurd h (Nat.not_lt_zero i), hs⟩
    | none =>
      -- the first message went through; the rest is sent from the next place on
      have ih := sentInOrder_sendUntilFailure send (place + 1) rest
      rcases hr : sendUntilFailure send (place + 1) rest with ⟨sent, failure⟩
      rw [hr] at ih
      simp only [sendUntilFailure, hs, hr]
      cases failure with
      | none =>
        obtain ⟨rfl, hok⟩ := ih
        exact ⟨rfl, sends_cons_ok hs hok⟩
      | some e =>
        obtain ⟨pre, p, post, rfl, rfl, hok, hfail⟩ := ih
        refine ⟨(k, v) :: pre, p, post, rfl, rfl, sends_cons_ok hs hok, ?_⟩
        rwa [show place + 1 + pre.length = place + (pre.length + 1) by omega] at hfail

/-! ## The queue the puts leave -/

variable [BEq κ]

/-- Puts each pair in turn, answering for each whether its key was queued already. -/
def putAll (o : Outbox κ ν) : List (κ × ν) → Outbox κ ν × List Bool
  | [] => (o, [])
  | (k, v) :: rest =>
    let r := (o.put k v).1.putAll rest
    (r.1, (o.put k v).2 :: r.2)

/-- Each key of the puts `ps` once, in the order of its first put, with the value of its last
put. -/
def latest (ps : List (κ × ν)) : List (κ × ν) :=
  (ps.map Prod.fst).eraseDups.filterMap fun k => (ps.reverse.lookup k).map (k, ·)

variable [LawfulBEq κ]

/-- Every key that was put has a last value. -/
theorem exists_lookup_reverse {ps : List (κ × ν)} {k : κ} (hk : k ∈ ps.map Prod.fst) :
    ∃ w, ps.reverse.lookup k = some w := by
  obtain ⟨p, hp, rfl⟩ := List.mem_map.1 hk
  exact Option.isSome_iff_exists.1
    (List.lookup_isSome_iff.2 ⟨p, List.mem_reverse.2 hp, beq_self_eq_true _⟩)

/-- The queue holds the keys of the puts, first put first. -/
theorem keys_latest (ps : List (κ × ν)) :
    (latest ps).map Prod.fst = (ps.map Prod.fst).eraseDups := by
  rw [latest, List.map_filterMap]
  calc (ps.map Prod.fst).eraseDups.filterMap
        (fun k => ((ps.reverse.lookup k).map (k, ·)).map Prod.fst)
      = (ps.map Prod.fst).eraseDups.filterMap some := by
        apply List.filterMap_congr
        intro k hk
        obtain ⟨w, hw⟩ := exists_lookup_reverse (List.mem_eraseDups.1 hk)
        simp [hw]
    _ = (ps.map Prod.fst).eraseDups := List.filterMap_some

/-- A put of a new key queues it last; a put of a queued key replaces its value in place. -/
theorem latest_snoc (ps : List (κ × ν)) (k : κ) (v : ν) :
    latest (ps ++ [(k, v)]) = if (ps.map Prod.fst).contains k then
        (latest ps).map fun e => if e.1 == k then (k, v) else e
      else latest ps ++ [(k, v)] := by
  have hrev : (ps ++ [(k, v)]).reverse = (k, v) :: ps.reverse := by simp
  -- the new put is the last one only for its own key
  have hother : ∀ k', k' ≠ k → ((k, v) :: ps.reverse).lookup k' = ps.reverse.lookup k' := by
    intro k' hne
    rw [List.lookup_cons, beq_eq_false_iff_ne.2 hne]
  rw [latest, latest, hrev, List.map_append, List.map_cons, List.map_nil, List.eraseDups_append]
  by_cases hk : (ps.map Prod.fst).contains k
  · have hgone : [k].removeAll (ps.map Prod.fst) = [] := by simpa [List.removeAll] using hk
    rw [if_pos hk, hgone, List.eraseDups_nil, List.append_nil, List.map_filterMap]
    apply List.filterMap_congr
    intro k' _
    by_cases hkk : k' = k
    · subst hkk
      obtain ⟨w, hw⟩ := exists_lookup_reverse (List.contains_iff_mem.1 hk)
      simp [hw]
    · rw [hother k' hkk]
      cases ps.reverse.lookup k' <;> simp [hkk]
  · have hnew : [k].removeAll (ps.map Prod.fst) = [k] := by simpa [List.removeAll] using hk
    rw [if_neg hk, hnew, List.filterMap_append]
    congr 1
    · apply List.filterMap_congr
      intro k' hk'
      have hne : k' ≠ k := by
        rintro rfl
        exact hk (List.contains_iff_mem.2 (List.mem_eraseDups.1 hk'))
      rw [hother k' hne]
    · simp [List.eraseDups_cons]

/-- Whether a key is queued, read off the puts. -/
theorem any_latest (ps : List (κ × ν)) (k : κ) :
    (latest ps).any (·.1 == k) = (ps.map Prod.fst).contains k := by
  apply Bool.eq_iff_iff.2
  rw [List.any_eq_true, List.contains_iff_mem, ← List.mem_eraseDups, ← keys_latest]
  simp

/-- One put takes the outbox from the queue of the puts so far to the queue with this put, and
answers whether its key was put before. -/
theorem put_latest {o : Outbox κ ν} {ps : List (κ × ν)} (h : o.entries = latest ps) (k : κ)
    (v : ν) :
    (o.put k v).1.entries = latest (ps ++ [(k, v)]) ∧
      (o.put k v).2 = (ps.map Prod.fst).contains k := by
  have hany : o.entries.any (·.1 == k) = (ps.map Prod.fst).contains k := h ▸ any_latest ps k
  rw [latest_snoc, ← h]
  unfold put
  rw [hany]
  cases (ps.map Prod.fst).contains k <;> simp

/-- A run of puts takes the outbox from the queue of the puts so far to the queue with all of
them, each put answering whether its key was put before it. -/
theorem putAll_latest {o : Outbox κ ν} {ps : List (κ × ν)} (h : o.entries = latest ps)
    (qs : List (κ × ν)) :
    (o.putAll qs).1.entries = latest (ps ++ qs) ∧
      (o.putAll qs).2 = qs.mapIdx fun i q => ((ps ++ qs.take i).map Prod.fst).contains q.1 := by
  induction qs generalizing o ps with
  | nil => simp [putAll, h]
  | cons q qs ih =>
    obtain ⟨k, v⟩ := q
    obtain ⟨hput, hreply⟩ := put_latest h k v
    obtain ⟨hrun, hreplies⟩ := ih hput
    refine ⟨by simpa [putAll] using hrun, ?_⟩
    simp only [putAll, List.mapIdx_cons, List.take_zero, List.append_nil, List.take_succ_cons,
      hreply, hreplies, List.append_assoc, List.singleton_append]

/-- Since the last flush an outbox keeps the last value of each key, in the order of the key's
first put: each put answers whether its key was queued already, the size is the number of
distinct keys, and a flush sends each key once, in that order and with that value, up to the
first send that fails, and leaves the outbox empty. -/
theorem putAll_flush (puts : List (κ × ν)) (send : Nat → κ → ν → Option ε) :
    let r := ({} : Outbox κ ν).putAll puts
    r.2 = puts.mapIdx (fun i p => ((puts.take i).map Prod.fst).contains p.1) ∧
      r.1.size = (puts.map Prod.fst).eraseDups.length ∧
      SentInOrder send 1 (latest puts) (r.1.flush send).1 ∧ (r.1.flush send).2.size = 0 := by
  intro r
  have hempty : ({} : Outbox κ ν).entries = latest [] := rfl
  obtain ⟨hqueue, hreplies⟩ := putAll_latest hempty puts
  refine ⟨by simpa using hreplies, ?_, ?_, rfl⟩
  · rw [size, hqueue, List.nil_append, ← keys_latest, List.length_map]
  · rw [flush, hqueue, List.nil_append]
    exact sentInOrder_sendUntilFailure send 1 (latest puts)

/-- Keys `1`, `2`, then `1` again, flushed by a send that fails on its second call: `1` goes
first with its second value, and `2` is handed over and fails. -/
theorem putAll_flush_replaced_key :
    let puts : List (Nat × String) := [(1, "a"), (2, "b"), (1, "c")]
    let send : Nat → Nat → String → Option String := fun i _ _ =>
      if i = 2 then some "boom" else none
    let r := ({} : Outbox Nat String).putAll puts
    latest puts = [(1, "c"), (2, "b")] ∧ (r.1.flush send).1 = ([(1, "c"), (2, "b")], some "boom") ∧
      (r.2 = puts.mapIdx (fun i p => ((puts.take i).map Prod.fst).contains p.1) ∧
        r.1.size = (puts.map Prod.fst).eraseDups.length ∧
        SentInOrder send 1 (latest puts) (r.1.flush send).1 ∧ (r.1.flush send).2.size = 0) := by
  intro puts send r
  exact ⟨rfl, rfl, putAll_flush puts send⟩

end CoSimBridge.Delivery.Outbox
