import Mathlib
import CoSimBridge.Delivery.Buffer
import CoSimBridge.Proofs.Number.Order
/-!
# The buckets pending messages make

`bucketsOf ms` files the messages `ms`, in the order they came, the way a buffer does: a message
joins the bucket whose timestamp is `==` to its own, or opens a new one at the end, and in a
bucket a key keeps its place and takes the newer value. `Files ms bs` says what such buckets hold,
message by message: each message has its key in the bucket of its timestamp, each entry carries
the value of the last message of its key at that timestamp, and the keys of a bucket stand in
the order their first messages came. `files_bucketsOf` proves it of `bucketsOf`, and
`bucketsOf_filter` that releasing the messages of some timestamps releases exactly their
buckets.
-/

namespace CoSimBridge.Delivery

open Number (rank)

set_option autoImplicit false

variable {κ ν : Type}

/-! ## Entries of one bucket -/

section Entries

variable [BEq κ] (k : κ) (v : ν)

@[simp] theorem putEntry_nil : (putEntry k v []).1 = [(k, v)] := rfl

variable [LawfulBEq κ]

@[simp] theorem putEntry_cons_self (v' : ν) (rest : List (κ × ν)) :
    (putEntry k v ((k, v') :: rest)).1 = (k, v) :: rest := by
  simp [putEntry]

theorem putEntry_cons_of_ne {k' : κ} (v' : ν) (rest : List (κ × ν)) (h : k' ≠ k) :
    (putEntry k v ((k', v') :: rest)).1 = (k', v') :: (putEntry k v rest).1 := by
  simp [putEntry, beq_false_of_ne h]

/-- The keys after a put: the same, or the new key at the end. -/
theorem keys_putEntry (es : List (κ × ν)) :
    (putEntry k v es).1.map Prod.fst =
      if k ∈ es.map Prod.fst then es.map Prod.fst else es.map Prod.fst ++ [k] := by
  induction es with
  | nil => simp
  | cons e rest ih =>
    obtain ⟨k', v'⟩ := e
    by_cases hk : k' = k
    · subst hk
      simp
    · rw [putEntry_cons_of_ne k v v' rest hk, List.map_cons, ih]
      by_cases hr : k ∈ rest.map Prod.fst <;> simp [hr, Ne.symm hk]

theorem mem_putEntry {es : List (κ × ν)} (hnd : (es.map Prod.fst).Nodup) {e : κ × ν} :
    e ∈ (putEntry k v es).1 ↔ e = (k, v) ∨ (e ∈ es ∧ e.1 ≠ k) := by
  induction es with
  | nil => simp
  | cons e' rest ih =>
    obtain ⟨k', v'⟩ := e'
    rw [List.map_cons, List.nodup_cons] at hnd
    by_cases hk : k' = k
    · subst hk
      -- the key was there: its entry is replaced, and the rest holds no other entry of it
      have hk' : k' ∉ rest.map Prod.fst := hnd.1
      have hrest : ∀ x ∈ rest, x.1 ≠ k' := fun x hx hxk => hk' (hxk ▸ List.mem_map_of_mem hx)
      rw [putEntry_cons_self, List.mem_cons, List.mem_cons]
      constructor
      · rintro (rfl | hx)
        · exact .inl rfl
        · exact .inr ⟨.inr hx, hrest e hx⟩
      · rintro (rfl | ⟨rfl | hx, hxk⟩)
        · exact .inl rfl
        · exact absurd rfl hxk
        · exact .inr hx
    · rw [putEntry_cons_of_ne k v v' rest hk, List.mem_cons, ih hnd.2, List.mem_cons]
      constructor
      · rintro (rfl | rfl | ⟨hx, hxk⟩)
        · exact .inr ⟨.inl rfl, hk⟩
        · exact .inl rfl
        · exact .inr ⟨.inr hx, hxk⟩
      · rintro (rfl | ⟨rfl | hx, hxk⟩)
        · exact .inr (.inl rfl)
        · exact .inl rfl
        · exact .inr (.inr ⟨hx, hxk⟩)

theorem nodup_keys_putEntry {es : List (κ × ν)} (hnd : (es.map Prod.fst).Nodup) :
    ((putEntry k v es).1.map Prod.fst).Nodup := by
  rw [keys_putEntry]
  split
  · exact hnd
  · rename_i hk
    exact hnd.append (List.nodup_singleton k) (by simpa using hk)

end Entries

/-! ## Filing messages -/

section Filing

variable [BEq κ]

/-- The bucket a message opens. -/
def Bucket.first (m : Item κ ν) : Bucket κ ν := { ts := m.ts, entries := [(m.key, m.value)] }

/-- A message put into a bucket of its timestamp; other buckets stay as they are. -/
def Bucket.file (b : Bucket κ ν) (m : Item κ ν) : Bucket κ ν :=
  if b.ts == m.ts then { b with entries := (putEntry m.key m.value b.entries).1 } else b

/-- Files a message: into the bucket of its timestamp, or into a new bucket at the end. -/
def fileMessage (bs : List (Bucket κ ν)) (m : Item κ ν) : List (Bucket κ ν) :=
  if bs.any (·.ts == m.ts) then bs.map (·.file m) else bs ++ [Bucket.first m]

/-- The buckets that messages make, in the order of their first messages. -/
def bucketsOf (ms : List (Item κ ν)) : List (Bucket κ ν) := ms.foldl fileMessage []

@[simp] theorem bucketsOf_nil : bucketsOf ([] : List (Item κ ν)) = [] := rfl

@[simp] theorem bucketsOf_append_singleton (ms : List (Item κ ν)) (m : Item κ ν) :
    bucketsOf (ms ++ [m]) = fileMessage (bucketsOf ms) m := by
  simp [bucketsOf]

@[simp] theorem ts_file (b : Bucket κ ν) (m : Item κ ν) : (b.file m).ts = b.ts := by
  unfold Bucket.file; split <;> rfl

@[simp] theorem indexed_file (b : Bucket κ ν) (m : Item κ ν) :
    (b.file m).indexed = b.indexed := by
  unfold Bucket.file; split <;> rfl

theorem file_of_beq_false {b : Bucket κ ν} {m : Item κ ν} (h : (b.ts == m.ts) = false) :
    b.file m = b := by
  simp [Bucket.file, h]

theorem map_file_of_forall {bs : List (Bucket κ ν)} {m : Item κ ν}
    (h : ∀ b ∈ bs, (b.ts == m.ts) = false) : bs.map (·.file m) = bs :=
  (List.map_congr_left fun b hb => file_of_beq_false (h b hb)).trans (List.map_id' bs)

theorem entries_file_of_beq {b : Bucket κ ν} {m : Item κ ν} (h : (b.ts == m.ts) = true) :
    (b.file m).entries = (putEntry m.key m.value b.entries).1 := by
  simp [Bucket.file, h]

theorem mem_fileMessage {bs : List (Bucket κ ν)} {m : Item κ ν} {b' : Bucket κ ν} :
    b' ∈ fileMessage bs m ↔
      (∃ b ∈ bs, b' = b.file m) ∨
        ((∀ b ∈ bs, (b.ts == m.ts) = false) ∧ b' = Bucket.first m) := by
  unfold fileMessage
  split
  · rename_i hany
    obtain ⟨b0, hb0, hb0m⟩ := List.any_eq_true.mp hany
    simp only [List.mem_map]
    constructor
    · rintro ⟨b, hb, rfl⟩; exact .inl ⟨b, hb, rfl⟩
    · rintro (⟨b, hb, rfl⟩ | ⟨hnone, -⟩)
      · exact ⟨b, hb, rfl⟩
      · exact absurd (hnone b0 hb0) (by simp [hb0m])
  · rename_i hany
    have hnone : ∀ b ∈ bs, (b.ts == m.ts) = false := by simpa using hany
    rw [List.mem_append, List.mem_singleton]
    constructor
    · rintro (hb | rfl)
      · exact .inl ⟨b', hb, (file_of_beq_false (hnone b' hb)).symm⟩
      · exact .inr ⟨hnone, rfl⟩
    · rintro (⟨b, hb, rfl⟩ | ⟨-, rfl⟩)
      · rw [file_of_beq_false (hnone b hb)]; exact .inl hb
      · exact .inr rfl

theorem file_mem_fileMessage {bs : List (Bucket κ ν)} {b : Bucket κ ν} (hb : b ∈ bs)
    (m : Item κ ν) : b.file m ∈ fileMessage bs m :=
  mem_fileMessage.mpr (.inl ⟨b, hb, rfl⟩)

/-- Filing a message does not depend on the order of the buckets. -/
theorem fileMessage_perm {bs bs' : List (Bucket κ ν)} (hp : bs.Perm bs') (m : Item κ ν) :
    (fileMessage bs m).Perm (fileMessage bs' m) := by
  unfold fileMessage
  rw [hp.any_eq]
  split
  · exact hp.map _
  · exact hp.append_right _

end Filing

/-! ## What filed buckets hold -/

/-- The rank of a bucket's timestamp, by which a stage orders its buckets. -/
def Bucket.rank (b : Bucket κ ν) : Int ×ₗ Int ×ₗ Int := Number.rank b.ts

/-- Buckets as a buffer keeps them: marked in the index, stamped with a timestamp that is no NaN,
and at pairwise different timestamps. -/
structure Tidy (bs : List (Bucket κ ν)) : Prop where
  indexed : ∀ b ∈ bs, b.indexed = true
  ts : ∀ b ∈ bs, b.ts.isNaN = false
  distinct : bs.Pairwise fun b c => b.rank ≠ c.rank

section Tidy

variable {bs bs' : List (Bucket κ ν)}

theorem Tidy.perm (h : Tidy bs) (hp : bs'.Perm bs) : Tidy bs' where
  indexed b hb := h.indexed b (hp.mem_iff.mp hb)
  ts b hb := h.ts b (hp.mem_iff.mp hb)
  distinct := (hp.pairwise_iff fun hne => Ne.symm hne).mpr h.distinct

theorem Tidy.sublist (h : Tidy bs) (hs : bs'.Sublist bs) : Tidy bs' where
  indexed b hb := h.indexed b (hs.subset hb)
  ts b hb := h.ts b (hs.subset hb)
  distinct := h.distinct.sublist hs

/-- In tidy buckets, one rank is one bucket. -/
theorem Tidy.eq_of_rank_eq (h : Tidy bs) {b c : Bucket κ ν} (hb : b ∈ bs) (hc : c ∈ bs)
    (he : b.rank = c.rank) : b = c := by
  have : Std.Symm fun b c : Bucket κ ν => b.rank ≠ c.rank := ⟨fun _ _ hne => Ne.symm hne⟩
  by_contra hne
  exact h.distinct.forall hb hc hne he

end Tidy

/-- After the messages `ms`, key `k` has value `v` at timestamp `ts`: the last message of key `k`
at a timestamp `==` to `ts` carries `v`. -/
def LatestAt (ms : List (Item κ ν)) (ts : Float) (k : κ) (v : ν) : Prop :=
  ∃ pre m post, ms = pre ++ m :: post ∧ m.key = k ∧ m.value = v ∧ (m.ts == ts) = true ∧
    ∀ m' ∈ post, m'.key = k → (m'.ts == ts) = false

section Latest

variable {ms : List (Item κ ν)} {m : Item κ ν}

theorem LatestAt.exists {ts : Float} {k : κ} {v : ν} (h : LatestAt ms ts k v) :
    ∃ m ∈ ms, m.key = k ∧ (m.ts == ts) = true := by
  obtain ⟨pre, m, post, rfl, hk, -, hts, -⟩ := h
  exact ⟨m, by simp, hk, hts⟩

theorem LatestAt.snoc {ts : Float} {k : κ} {v : ν} (h : LatestAt ms ts k v)
    (hm : m.key = k → (m.ts == ts) = false) : LatestAt (ms ++ [m]) ts k v := by
  obtain ⟨pre, m0, post, rfl, hk, hv, hts, hpost⟩ := h
  refine ⟨pre, m0, post ++ [m], by simp, hk, hv, hts, fun m' hm' hk' => ?_⟩
  rcases List.mem_append.mp hm' with hm' | hm'
  · exact hpost m' hm' hk'
  · rw [List.mem_singleton.mp hm'] at hk' ⊢
    exact hm hk'

theorem LatestAt.last {ts : Float} (hts : (m.ts == ts) = true) :
    LatestAt (ms ++ [m]) ts m.key m.value :=
  ⟨ms, m, [], rfl, rfl, rfl, hts, by simp⟩

end Latest

variable [BEq κ]

theorem Tidy.map_file {bs : List (Bucket κ ν)} (h : Tidy bs) (m : Item κ ν) :
    Tidy (bs.map (·.file m)) where
  indexed b hb := by
    obtain ⟨c, hc, rfl⟩ := List.mem_map.mp hb
    rw [indexed_file]; exact h.indexed c hc
  ts b hb := by
    obtain ⟨c, hc, rfl⟩ := List.mem_map.mp hb
    rw [ts_file]; exact h.ts c hc
  distinct := by
    rw [List.pairwise_map]
    exact h.distinct.imp fun hne => by simpa [Bucket.rank] using hne

theorem Tidy.fileMessage {bs : List (Bucket κ ν)} {m : Item κ ν} (h : Tidy bs)
    (hm : m.ts.isNaN = false) : Tidy (fileMessage bs m) := by
  refine ⟨fun b' hb' => ?_, fun b' hb' => ?_, ?_⟩
  · rcases mem_fileMessage.mp hb' with ⟨b, hb, rfl⟩ | ⟨-, rfl⟩
    · rw [indexed_file]; exact h.indexed b hb
    · rfl
  · rcases mem_fileMessage.mp hb' with ⟨b, hb, rfl⟩ | ⟨-, rfl⟩
    · rw [ts_file]; exact h.ts b hb
    · exact hm
  · unfold CoSimBridge.Delivery.fileMessage
    split
    · exact (h.map_file m).distinct
    · rename_i hany
      -- a new bucket: its timestamp is `==` to no other, so its rank is new
      refine List.pairwise_append.mpr ⟨h.distinct, List.pairwise_singleton _ _, ?_⟩
      intro b hb c hc he
      rw [List.mem_singleton.mp hc] at he
      have hbeq : (b.ts == m.ts) = true := (Number.beq_iff_rank_eq (h.ts b hb) hm).mpr he
      exact hany (List.any_eq_true.mpr ⟨b, hb, hbeq⟩)

/-- Where the first message of key `k` at a timestamp `==` to `ts` stands among `ms`. -/
def firstIndex (ms : List (Item κ ν)) (ts : Float) (k : κ) : Nat :=
  ms.findIdx fun m => m.key == k && m.ts == ts

/-- What buckets hold that file the messages `ms`: every message has its key in the bucket of its
timestamp, every entry has the value of the last message of its key there, no key twice, and
the keys in the order their first messages came. -/
structure Files (ms : List (Item κ ν)) (bs : List (Bucket κ ν)) : Prop where
  msgs : ∀ m ∈ ms, m.ts.isNaN = false
  tidy : Tidy bs
  cover : ∀ m ∈ ms, ∃ b ∈ bs, (b.ts == m.ts) = true ∧ m.key ∈ b.entries.map Prod.fst
  latest : ∀ b ∈ bs, ∀ e ∈ b.entries, LatestAt ms b.ts e.1 e.2
  nodup : ∀ b ∈ bs, (b.entries.map Prod.fst).Nodup
  order : ∀ b ∈ bs, (b.entries.map Prod.fst).Pairwise fun k k' =>
    firstIndex ms b.ts k < firstIndex ms b.ts k'

theorem Files.perm {ms : List (Item κ ν)} {bs bs' : List (Bucket κ ν)} (h : Files ms bs)
    (hp : bs'.Perm bs) : Files ms bs' where
  msgs := h.msgs
  tidy := h.tidy.perm hp
  cover m hm := by
    obtain ⟨b, hb, hbm⟩ := h.cover m hm
    exact ⟨b, hp.mem_iff.mpr hb, hbm⟩
  latest b hb := h.latest b (hp.mem_iff.mp hb)
  nodup b hb := h.nodup b (hp.mem_iff.mp hb)
  order b hb := h.order b (hp.mem_iff.mp hb)

section Step

variable [LawfulBEq κ] {ms : List (Item κ ν)} {bs : List (Bucket κ ν)} {m : Item κ ν}

/-- A message later than the first of its key at a timestamp leaves that first one in place. -/
theorem firstIndex_snoc {ts : Float} {k : κ} (h : ∃ m' ∈ ms, m'.key = k ∧ (m'.ts == ts) = true) :
    firstIndex (ms ++ [m]) ts k = firstIndex ms ts k := by
  have hlt : firstIndex ms ts k < ms.length := by
    obtain ⟨m', hm', hk, hts⟩ := h
    exact List.findIdx_lt_length_of_exists ⟨m', hm', by simp [hk, hts]⟩
  unfold firstIndex at hlt ⊢
  rw [List.findIdx_append, if_pos hlt]

theorem mem_keys_file {b : Bucket κ ν} {k : κ} (hk : k ∈ b.entries.map Prod.fst) :
    k ∈ (b.file m).entries.map Prod.fst := by
  cases hbm : (b.ts == m.ts)
  · rwa [file_of_beq_false hbm]
  · rw [entries_file_of_beq hbm, keys_putEntry]
    split
    · exact hk
    · exact List.mem_append_left _ hk

theorem key_mem_file {b : Bucket κ ν} (hbm : (b.ts == m.ts) = true) :
    m.key ∈ (b.file m).entries.map Prod.fst := by
  rw [entries_file_of_beq hbm, keys_putEntry]
  split
  · assumption
  · exact List.mem_append_right _ (List.mem_singleton_self _)

theorem Files.cover_fileMessage (h : Files ms bs) (hm : m.ts.isNaN = false) :
    ∀ m' ∈ ms ++ [m], ∃ b ∈ fileMessage bs m, (b.ts == m'.ts) = true ∧
      m'.key ∈ b.entries.map Prod.fst := by
  intro m' hm'
  rcases List.mem_append.mp hm' with hm' | hm'
  · obtain ⟨b, hb, hbt, hbk⟩ := h.cover m' hm'
    exact ⟨b.file m, file_mem_fileMessage hb m, by rwa [ts_file], mem_keys_file hbk⟩
  · rw [List.mem_singleton.mp hm']
    by_cases hex : ∃ b ∈ bs, (b.ts == m.ts) = true
    · obtain ⟨b, hb, hbm⟩ := hex
      exact ⟨b.file m, file_mem_fileMessage hb m, by rwa [ts_file], key_mem_file hbm⟩
    · -- no bucket has the timestamp: the message opens one
      have hnone : ∀ b ∈ bs, (b.ts == m.ts) = false := by simpa using hex
      exact ⟨Bucket.first m, mem_fileMessage.mpr (.inr ⟨hnone, rfl⟩), Number.beq_self hm,
        by simp [Bucket.first]⟩

/-- Filing a message keeps every entry the value of the last message of its key at its
timestamp. -/
theorem latestAt_fileMessage (hts : ∀ b ∈ bs, b.ts.isNaN = false)
    (hlatest : ∀ b ∈ bs, ∀ e ∈ b.entries, LatestAt ms b.ts e.1 e.2)
    (hnodup : ∀ b ∈ bs, (b.entries.map Prod.fst).Nodup) (hm : m.ts.isNaN = false) :
    ∀ b' ∈ fileMessage bs m, ∀ e ∈ b'.entries, LatestAt (ms ++ [m]) b'.ts e.1 e.2 := by
  intro b' hb' e he
  rcases mem_fileMessage.mp hb' with ⟨b, hb, rfl⟩ | ⟨-, rfl⟩
  · have hswap := Number.beq_swap hm (hts b hb)
    rw [ts_file]
    cases hbm : (b.ts == m.ts)
    · rw [file_of_beq_false hbm] at he
      exact (hlatest b hb e he).snoc fun _ => hswap.trans hbm
    · rw [entries_file_of_beq hbm, mem_putEntry _ _ (hnodup b hb)] at he
      rcases he with rfl | ⟨he, hek⟩
      · exact LatestAt.last (hswap.trans hbm)
      · exact (hlatest b hb e he).snoc fun hk => absurd hk.symm hek
  · simp only [Bucket.first, List.mem_singleton] at he
    subst he
    exact LatestAt.last (Number.beq_self hm)

theorem nodup_keys_fileMessage (hnodup : ∀ b ∈ bs, (b.entries.map Prod.fst).Nodup) :
    ∀ b' ∈ fileMessage bs m, (b'.entries.map Prod.fst).Nodup := by
  intro b' hb'
  rcases mem_fileMessage.mp hb' with ⟨b, hb, rfl⟩ | ⟨-, rfl⟩
  · cases hbm : (b.ts == m.ts)
    · rw [file_of_beq_false hbm]; exact hnodup b hb
    · rw [entries_file_of_beq hbm]; exact nodup_keys_putEntry _ _ (hnodup b hb)
  · simp [Bucket.first]

theorem Files.latest_fileMessage (h : Files ms bs) (hm : m.ts.isNaN = false) :
    ∀ b' ∈ fileMessage bs m, ∀ e ∈ b'.entries, LatestAt (ms ++ [m]) b'.ts e.1 e.2 :=
  latestAt_fileMessage h.tidy.ts h.latest h.nodup hm

theorem Files.nodup_fileMessage (h : Files ms bs) :
    ∀ b' ∈ fileMessage bs m, (b'.entries.map Prod.fst).Nodup :=
  nodup_keys_fileMessage h.nodup

/-- A key new at a timestamp is first met at the end. -/
theorem Files.firstIndex_new (h : Files ms bs) (hm : m.ts.isNaN = false) {b : Bucket κ ν}
    (hb : b ∈ bs) (hbm : (b.ts == m.ts) = true) (hnk : m.key ∉ b.entries.map Prod.fst) :
    firstIndex (ms ++ [m]) b.ts m.key = ms.length := by
  -- a message of the key at the timestamp would have put the key into `b`
  have hnone : ∀ m' ∈ ms, (m'.key == m.key && m'.ts == b.ts) = false := by
    intro m' hm'
    refine Bool.eq_false_iff.mpr fun hp => ?_
    simp only [Bool.and_eq_true, beq_iff_eq] at hp
    obtain ⟨b', hb', hbt', hbk'⟩ := h.cover m' hm'
    have hr : b'.rank = b.rank := by
      have h1 := (Number.beq_iff_rank_eq (h.tidy.ts b' hb') (h.msgs m' hm')).mp hbt'
      have h2 := (Number.beq_iff_rank_eq (h.msgs m' hm') (h.tidy.ts b hb)).mp hp.2
      exact h1.trans h2
    rw [h.tidy.eq_of_rank_eq hb' hb hr, hp.1] at hbk'
    exact hnk hbk'
  have hself : (m.key == m.key && m.ts == b.ts) = true := by
    rw [Number.beq_swap hm (h.tidy.ts b hb)]; simp [hbm]
  unfold firstIndex
  rw [List.findIdx_append,
    if_neg (by rw [List.findIdx_eq_length_of_false hnone]; exact Nat.lt_irrefl _),
    List.findIdx_cons, hself, cond_true, Nat.zero_add]

theorem Files.order_fileMessage (h : Files ms bs) (hm : m.ts.isNaN = false) :
    ∀ b' ∈ fileMessage bs m, (b'.entries.map Prod.fst).Pairwise fun k k' =>
      firstIndex (ms ++ [m]) b'.ts k < firstIndex (ms ++ [m]) b'.ts k' := by
  intro b' hb'
  rcases mem_fileMessage.mp hb' with ⟨b, hb, rfl⟩ | ⟨-, rfl⟩
  · rw [ts_file]
    -- the keys already in `b` keep their first messages
    have hold : ∀ k ∈ b.entries.map Prod.fst,
        firstIndex (ms ++ [m]) b.ts k = firstIndex ms b.ts k := by
      intro k hk
      obtain ⟨e, he, rfl⟩ := List.mem_map.mp hk
      exact firstIndex_snoc (h.latest b hb e he).exists
    have holdpw : (b.entries.map Prod.fst).Pairwise fun k k' =>
        firstIndex (ms ++ [m]) b.ts k < firstIndex (ms ++ [m]) b.ts k' :=
      (h.order b hb).imp_of_mem fun hk hk' hlt => by rw [hold _ hk, hold _ hk']; exact hlt
    cases hbm : (b.ts == m.ts)
    · rw [file_of_beq_false hbm]; exact holdpw
    · rw [entries_file_of_beq hbm, keys_putEntry]
      split
      · exact holdpw
      · rename_i hnk
        refine List.pairwise_append.mpr ⟨holdpw, List.pairwise_singleton _ _, ?_⟩
        intro k hk k' hk'
        rw [List.mem_singleton.mp hk', h.firstIndex_new hm hb hbm hnk, hold k hk]
        obtain ⟨e, he, rfl⟩ := List.mem_map.mp hk
        obtain ⟨m', hm', hk1, hts⟩ := (h.latest b hb e he).exists
        exact List.findIdx_lt_length_of_exists ⟨m', hm', by simp [hk1, hts]⟩
  · simp [Bucket.first]

/-- Filing one more message keeps `Files`. -/
theorem Files.fileMessage (h : Files ms bs) (hm : m.ts.isNaN = false) :
    Files (ms ++ [m]) (fileMessage bs m) where
  msgs m' hm' := by
    rcases List.mem_append.mp hm' with hm' | hm'
    · exact h.msgs m' hm'
    · rw [List.mem_singleton.mp hm']; exact hm
  tidy := h.tidy.fileMessage hm
  cover := h.cover_fileMessage hm
  latest := h.latest_fileMessage hm
  nodup := h.nodup_fileMessage
  order := h.order_fileMessage hm

theorem files_bucketsOf {ms : List (Item κ ν)} (hms : ∀ m ∈ ms, m.ts.isNaN = false) :
    Files ms (bucketsOf ms) := by
  induction ms using List.reverseRecOn with
  | nil => exact ⟨by simp, ⟨by simp, by simp, by simp⟩, by simp, by simp, by simp, by simp⟩
  | append_singleton ms m ih =>
    rw [bucketsOf_append_singleton]
    exact (ih fun m' hm' => hms m' (List.mem_append_left _ hm')).fileMessage
      (hms m (List.mem_append_right _ (List.mem_singleton_self _)))

/-- Keeping the messages of the timestamps a test keeps (a test that cannot tell `==` timestamps
apart) keeps exactly their buckets, in the same order. -/
theorem bucketsOf_filter {ms : List (Item κ ν)} (hms : ∀ m ∈ ms, m.ts.isNaN = false)
    (p : Float → Bool)
    (hp : ∀ x y, x.isNaN = false → y.isNaN = false → (x == y) = true → p x = p y) :
    bucketsOf (ms.filter fun m => p m.ts) = (bucketsOf ms).filter fun b => p b.ts := by
  induction ms using List.reverseRecOn with
  | nil => rfl
  | append_singleton ms m ih =>
    have hms' : ∀ m' ∈ ms, m'.ts.isNaN = false := fun m' hm' => hms m' (List.mem_append_left _ hm')
    have hm : m.ts.isNaN = false := hms m (List.mem_append_right _ (List.mem_singleton_self _))
    have htidy := (files_bucketsOf hms').tidy
    -- the bucket `m` joins is kept exactly when `m` is
    have hsame : ∀ b ∈ bucketsOf ms, (b.ts == m.ts) = true → p b.ts = p m.ts :=
      fun b hb hbm => hp _ _ (htidy.ts b hb) hm hbm
    have hany : ((bucketsOf ms).filter fun b => p b.ts).any (·.ts == m.ts) = true →
        (bucketsOf ms).any (·.ts == m.ts) = true := by
      rw [List.any_filter]
      intro h
      obtain ⟨b, hb, hbm⟩ := List.any_eq_true.mp h
      exact List.any_eq_true.mpr ⟨b, hb, (Bool.and_eq_true _ _ ▸ hbm).2⟩
    rw [List.filter_append, List.filter_cons, List.filter_nil, bucketsOf_append_singleton]
    cases hpm : p m.ts
    · -- `m` is dropped, and so is every change it made
      rw [if_neg Bool.false_ne_true, List.append_nil, ih hms']
      unfold fileMessage
      split
      · rw [List.filter_map]
        have hkeep : ((bucketsOf ms).filter ((fun b => p b.ts) ∘ fun b => b.file m)) =
            (bucketsOf ms).filter fun b => p b.ts := by
          apply List.filter_congr; intro b _; simp
        rw [hkeep]
        conv_lhs => rw [← List.map_id ((bucketsOf ms).filter fun b => p b.ts)]
        refine List.map_congr_left fun b hb => (file_of_beq_false ?_).symm
        obtain ⟨hb, hpb⟩ := List.mem_filter.mp hb
        refine Bool.eq_false_iff.mpr fun hbm => ?_
        rw [hsame b hb hbm, hpm] at hpb
        exact Bool.false_ne_true hpb
      · rw [List.filter_append]; simp [Bucket.first, hpm]
    · rw [if_pos rfl, bucketsOf_append_singleton, ih hms']
      unfold fileMessage
      by_cases hB : (bucketsOf ms).any (·.ts == m.ts) = true
      · -- the bucket `m` joins is kept, so filing commutes with keeping
        have hB' : ((bucketsOf ms).filter fun b => p b.ts).any (·.ts == m.ts) = true := by
          obtain ⟨b, hb, hbm⟩ := List.any_eq_true.mp hB
          exact List.any_eq_true.mpr
            ⟨b, List.mem_filter.mpr ⟨hb, (hsame b hb hbm).trans hpm⟩, hbm⟩
        rw [if_pos hB, if_pos hB', List.filter_map]
        congr 1
        apply List.filter_congr; intro b _; simp
      · rw [if_neg hB, if_neg (fun h => hB (hany h)), List.filter_append]
        simp [Bucket.first, hpm]

end Step

end CoSimBridge.Delivery
