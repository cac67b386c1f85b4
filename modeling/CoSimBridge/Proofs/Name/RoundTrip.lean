import Mathlib
import CoSimBridge.Name.Path
/-!
# Reading back written names

`Path.join` quotes a segment that holds a separator or a quote and writes each quote inside it
as `\'`; `Path.parse` reads `\'` inside quotes as a quote and any other backslash as itself. The
one place the two disagree is a backslash just before the closing quote: written as is, it
turns the closing quote into an escaped one. So reading a written path gives it back when it
has segments, none of them empty and no quoted one ending in a backslash (`parse_join`); every
path a name reads to has non-empty segments (`parse_ok_segments`), so writing it and reading
it again changes nothing unless such a backslash is there (`parse_join_parse`). The segment
`a.\` does not come back (`parse_join_quoted_trailing_backslash`).
-/

namespace CoSimBridge.Path

set_option autoImplicit false

/-- The characters of a quoted segment's body: every quote preceded by a backslash. -/
def escapeChars (cs : List Char) : List Char :=
  cs.flatMap fun c => if c = '\'' then ['\\', '\''] else [c]

/-- A segment `join` writes so that `parse` reads it back: non-empty, and not ending in a
backslash when it has to be quoted. -/
def Rejoinable (seg : String) : Prop :=
  seg ≠ "" ∧ (needsQuotes seg = true → seg.toList.getLast? ≠ some '\\')

theorem needsQuotes_iff (seg : String) :
    needsQuotes seg = true ↔ '.' ∈ seg.toList ∨ '\'' ∈ seg.toList := by
  rw [needsQuotes, String.any, String.contains_bool_eq, List.any_eq_true]
  constructor
  · rintro ⟨c, hc, hq⟩
    rcases Bool.or_eq_true_iff.mp hq with h | h
    · exact .inl (eq_of_beq h ▸ hc)
    · exact .inr (eq_of_beq h ▸ hc)
  · rintro (h | h)
    · exact ⟨_, h, by simp⟩
    · exact ⟨_, h, by simp⟩

theorem toList_writeSegment (seg : String) :
    (writeSegment seg).toList =
      if needsQuotes seg then '\'' :: escapeChars seg.toList ++ ['\''] else seg.toList := by
  unfold writeSegment
  split
  · simp only [String.toList_append, String.toList_join, List.flatMap_map, escapeChars]
    rw [show "'".toList = ['\''] from rfl, List.singleton_append, List.cons_append]
    congr 3
    funext c
    by_cases h : c = '\''
    · simp [h]
    · simp [h, String.toList_singleton]
  · rfl

theorem toList_join (p : Path) :
    (join p).toList = List.intercalate ['.'] (p.map fun s => (writeSegment s).toList) := by
  rw [join, String.toList_intercalate, List.map_map]
  rfl

/-! ## Reading a segment -/

section Read

variable (name : String) (done : List String)

/-- An unquoted run of characters is taken into the segment as it is. -/
theorem readFrom_plain_run {cs : List Char} (hcs : ∀ c ∈ cs, c ≠ '.' ∧ c ≠ '\'')
    (seg : List Char) (pos : Nat) (rest : List Char) :
    readFrom name done (.plain seg) pos (cs ++ rest) =
      readFrom name done (.plain (cs.reverse ++ seg)) (pos + (cs.map Char.utf8Size).sum) rest := by
  induction cs generalizing seg pos with
  | nil => simp
  | cons c cs ih =>
    obtain ⟨hdot, hquote⟩ := hcs c List.mem_cons_self
    -- the character is neither a separator nor an opening quote
    rw [List.cons_append, readFrom.eq_4 _ _ _ _ _ _ (fun _ hc => hquote hc) hdot,
      ih (fun c' hc' => hcs c' (List.mem_cons_of_mem c hc'))]
    simp [Nat.add_assoc]

/-- The body of a quoted segment, read up to and including its closing quote, when the segment
does not end in a backslash. -/
theorem readFrom_quoted_body {cs : List Char} (hlast : cs.getLast? ≠ some '\\') (start : Nat)
    (seg : List Char) (pos : Nat) (rest : List Char) :
    ∃ pos', readFrom name done (.quoted start seg) pos (escapeChars cs ++ '\'' :: rest) =
      readFrom name done (.closed (cs.reverse ++ seg)) pos' rest := by
  induction cs generalizing seg pos with
  | nil => exact ⟨pos + 1, by rw [escapeChars, List.flatMap_nil, List.nil_append, readFrom.eq_7]; rfl⟩
  | cons c cs ih =>
    have hlast' : cs.getLast? ≠ some '\\' := by
      cases cs with
      | nil => simp
      | cons c' cs' => simpa [List.getLast?_cons_cons] using hlast
    by_cases hq : c = '\''
    · -- an escaped quote
      subst hq
      obtain ⟨pos', hpos'⟩ := ih hlast' ('\'' :: seg) (pos + 2)
      refine ⟨pos', ?_⟩
      have hlist : escapeChars ('\'' :: cs) ++ '\'' :: rest =
          '\\' :: '\'' :: (escapeChars cs ++ '\'' :: rest) := by
        simp [escapeChars]
      rw [hlist, readFrom.eq_6, hpos']
      simp
    · -- any other character, a backslash included: what follows it is no quote
      have hnext : ∀ r, escapeChars cs ++ '\'' :: rest = '\'' :: r → c ≠ '\\' := by
        rintro r hr rfl
        cases cs with
        | nil => simp at hlast
        | cons c' cs' => by_cases hc' : c' = '\'' <;> simp [escapeChars, hc'] at hr
      obtain ⟨pos', hpos'⟩ := ih hlast' (c :: seg) (pos + c.utf8Size)
      refine ⟨pos', ?_⟩
      have hlist : escapeChars (c :: cs) ++ '\'' :: rest = c :: (escapeChars cs ++ '\'' :: rest) := by
        simp [escapeChars, hq]
      rw [hlist, readFrom.eq_8 _ _ _ _ _ _ _ (fun r hc hr => hnext r hr hc) hq, hpos']
      simp

/-- A segment read up to its end: an unquoted one leaves the reader inside it, a quoted one just
after its closing quote, holding the segment either way. -/
theorem readFrom_writeSegment {seg : String} (hseg : Rejoinable seg) (pos : Nat)
    (rest : List Char) :
    ∃ st pos', (st = .plain seg.toList.reverse ∨ st = .closed seg.toList.reverse) ∧
      readFrom name done (.plain []) pos ((writeSegment seg).toList ++ rest) =
        readFrom name done st pos' rest := by
  rw [toList_writeSegment]
  split
  · rename_i hq
    obtain ⟨pos', hpos'⟩ := readFrom_quoted_body name done (hseg.2 hq) pos [] (pos + 1) rest
    refine ⟨.closed seg.toList.reverse, pos', .inr rfl, ?_⟩
    have hlist : ('\'' :: escapeChars seg.toList ++ ['\'']) ++ rest =
        '\'' :: (escapeChars seg.toList ++ '\'' :: rest) := by
      simp
    rw [hlist, readFrom.eq_2, hpos', List.append_nil]
  · rename_i hq
    -- a segment written as it is holds no separator and no quote
    have hplain : ∀ c ∈ seg.toList, c ≠ '.' ∧ c ≠ '\'' := by
      intro c hc
      rw [needsQuotes_iff, not_or] at hq
      exact ⟨fun h => hq.1 (h ▸ hc), fun h => hq.2 (h ▸ hc)⟩
    refine ⟨.plain seg.toList.reverse, pos + (seg.toList.map Char.utf8Size).sum, .inl rfl, ?_⟩
    rw [readFrom_plain_run name done hplain [] pos rest, List.append_nil]

variable {name done}

/-- Inside a segment that holds something, the end of the name closes it. -/
theorem readFrom_end {st : ReadState} {seg : List Char}
    (hst : st = .plain seg ∨ st = .closed seg) (hseg : seg ≠ []) (pos : Nat) :
    readFrom name done st pos [] = .ok (done ++ [String.ofList seg.reverse]) := by
  rcases hst with rfl | rfl
  · rw [readFrom.eq_1]
  · rw [readFrom.eq_9, if_neg (by simpa using hseg)]

/-- Inside a segment that holds something, a separator followed by more closes it. -/
theorem readFrom_separator {st : ReadState} {seg : List Char}
    (hst : st = .plain seg ∨ st = .closed seg) (hseg : seg ≠ []) (pos : Nat) {rest : List Char}
    (hrest : rest ≠ []) :
    readFrom name done st pos ('.' :: rest) =
      readFrom name (done ++ [String.ofList seg.reverse]) (.plain []) (pos + 1) rest := by
  have hseg' : seg.isEmpty = false := by simpa using hseg
  have hrest' : rest.isEmpty = false := by simpa using hrest
  rcases hst with rfl | rfl
  · rw [readFrom.eq_3, if_neg (by simp [hseg']), if_neg (by simp [hrest'])]
  · rw [readFrom.eq_10, if_neg (by decide), if_neg (by simp [hseg']), if_neg (by simp [hrest'])]

end Read

theorem writeSegment_ne_nil {seg : String} (hseg : seg ≠ "") : (writeSegment seg).toList ≠ [] := by
  rw [toList_writeSegment]
  split
  · simp
  · simpa using hseg

/-- The written segments, separated by dots, read back as the segments. -/
theorem readFrom_intercalate (name : String) {segs : List String} (hne : segs ≠ [])
    (hsegs : ∀ s ∈ segs, Rejoinable s) (done : List String) (pos : Nat) :
    readFrom name done (.plain []) pos
        (List.intercalate ['.'] (segs.map fun s => (writeSegment s).toList)) = .ok (done ++ segs) := by
  induction segs generalizing done pos with
  | nil => exact absurd rfl hne
  | cons s ss ih =>
    have hs := hsegs s List.mem_cons_self
    have hseg : s.toList.reverse ≠ [] := by simpa using hs.1
    cases ss with
    | nil =>
      obtain ⟨st, pos', hst, hread⟩ := readFrom_writeSegment name done hs pos []
      rw [List.map_singleton, List.intercalate_singleton, ← List.append_nil (writeSegment s).toList,
        hread, readFrom_end hst hseg]
      simp
    | cons s' ss =>
      -- the next segment's written form is not empty, so the separator is followed by more
      have hmore : List.intercalate ['.'] ((s' :: ss).map fun s => (writeSegment s).toList) ≠ [] := by
        have hw := writeSegment_ne_nil (hsegs s' (by simp)).1
        cases ss <;> simp [hw]
      obtain ⟨st, pos', hst, hread⟩ := readFrom_writeSegment name done hs pos
        ('.' :: List.intercalate ['.'] ((s' :: ss).map fun s => (writeSegment s).toList))
      rw [List.map_cons, List.intercalate_cons_of_ne_nil (by simp), List.append_assoc,
        List.singleton_append, hread, readFrom_separator hst hseg pos' hmore,
        ih (List.cons_ne_nil _ _) (fun t ht => hsegs t (List.mem_cons_of_mem s ht))]
      simp

/-! ## Reading a whole name -/

theorem parse_of_toList {name : String} {c : Char} {cs : List Char} (h : name.toList = c :: cs)
    (hc : c ≠ '.') : parse name = readFrom name [] (.plain []) 0 (c :: cs) := by
  unfold parse
  split
  · simp_all
  · rename_i heq
    rw [h] at heq
    cases heq
    exact absurd rfl hc
  · rw [← h]

/-- A written segment starts with a character other than the separator. -/
theorem writeSegment_head {seg : String} (hseg : seg ≠ "") :
    ∃ c cs, (writeSegment seg).toList = c :: cs ∧ c ≠ '.' := by
  rw [toList_writeSegment]
  split
  · exact ⟨_, _, List.cons_append .., by decide⟩
  · rename_i hq
    obtain ⟨c, cs, hcs⟩ := List.exists_cons_of_ne_nil (mt String.toList_eq_nil_iff.mp hseg)
    refine ⟨c, cs, hcs, fun hc => hq ((needsQuotes_iff seg).mpr (.inl ?_))⟩
    rw [hcs, hc]
    exact List.mem_cons_self

/-- Reading a written path gives it back when it has segments, none of them empty, and no
quoted segment ends in a backslash. -/
theorem parse_join {p : Path} (hp : p ≠ []) (hseg : ∀ s ∈ p, Rejoinable s) :
    parse (join p) = .ok p := by
  obtain ⟨s, ss, rfl⟩ := List.exists_cons_of_ne_nil hp
  have hread := readFrom_intercalate (join (s :: ss)) hp hseg [] 0
  rw [List.nil_append, ← toList_join] at hread
  -- the name starts as its first segment is written, so not with a separator
  obtain ⟨c, cs, hcs, hc⟩ := writeSegment_head (hseg s List.mem_cons_self).1
  obtain ⟨t, ht⟩ : ∃ t, (join (s :: ss)).toList = c :: cs ++ t := by
    rw [toList_join, List.map_cons, ← hcs]
    cases ss with
    | nil => exact ⟨[], by simp⟩
    | cons s' ss => exact ⟨_, List.intercalate_cons_cons.trans (List.append_assoc _ _ _)⟩
  rw [List.cons_append] at ht
  rw [parse_of_toList ht hc, ← ht, hread]

/-- A plain segment, one with a separator and one with a quote read back as written. -/
theorem parse_join_dotted_and_quoted :
    parse (join ["a", "b.c", "it's"]) = .ok ["a", "b.c", "it's"] :=
  parse_join (by simp) fun s hs => by
    -- none of them ends in a backslash, quoted or not
    have hlast : s ≠ "" ∧ s.toList.getLast? ≠ some '\\' := by
      simp only [List.mem_cons, List.not_mem_nil, or_false] at hs
      rcases hs with rfl | rfl | rfl <;> decide +kernel
    exact ⟨hlast.1, fun _ => hlast.2⟩

theorem forall_ne_empty_append {done : List String} (hdone : ∀ s ∈ done, s ≠ "")
    {seg : List Char} (hseg : seg ≠ []) : ∀ s ∈ done ++ [String.ofList seg.reverse], s ≠ "" := by
  intro s hs
  rcases List.mem_append.mp hs with hs | hs
  · exact hdone s hs
  · rw [List.mem_singleton.mp hs]
    simpa using hseg

/-- Reading never closes an empty segment: the reader refuses a separator after an empty
segment, a separator at the end and an empty quoted segment. -/
theorem readFrom_ok_segments {name : String} {done : List String} {st : ReadState} {pos : Nat}
    {cs : List Char} {p : Path} (h : readFrom name done st pos cs = .ok p)
    (hdone : ∀ s ∈ done, s ≠ "") (hst : st = .plain [] → cs ≠ []) :
    p ≠ [] ∧ ∀ s ∈ p, s ≠ "" := by
  fun_induction readFrom name done st pos cs with
  | case3 | case4 | case7 | case11 | case13 | case14 | case15 => cases h
  | case1 done seg =>
    cases h
    exact ⟨by simp, forall_ne_empty_append hdone fun hnil => hst (by rw [hnil]) rfl⟩
  | case12 done seg _ hseg =>
    cases h
    exact ⟨by simp, forall_ne_empty_append hdone (by simpa using hseg)⟩
  | case5 done seg _ rest hseg hrest ih | case16 done seg _ _ rest _ hseg hrest ih =>
    exact ih h (forall_ne_empty_append hdone (by simpa using hseg)) fun _ => by simpa using hrest
  | case2 _ _ _ ih | case6 _ _ _ _ _ _ _ ih | case8 _ _ _ _ _ ih | case9 _ _ _ _ _ ih
  | case10 _ _ _ _ _ _ _ _ ih => exact ih h hdone (by simp)

/-- A name that reads has segments, and none of them is empty. -/
theorem parse_ok_segments {name : String} {p : Path} (h : parse name = .ok p) :
    p ≠ [] ∧ ∀ s ∈ p, s ≠ "" := by
  unfold parse at h
  split at h
  · cases h
  · cases h
  · rename_i cs hnil _
    exact readFrom_ok_segments h (by simp) fun _ hcs => hnil (hcs ▸ rfl)

/-- Reading the written form of a path that a name reads to gives the path again, unless one of
its quoted segments ends in a backslash. -/
theorem parse_join_parse {name : String} {p : Path} (h : parse name = .ok p)
    (hback : ∀ s ∈ p, needsQuotes s = true → s.toList.getLast? ≠ some '\\') :
    parse (join p) = .ok p := by
  obtain ⟨hne, hseg⟩ := parse_ok_segments h
  exact parse_join hne fun s hs => ⟨hseg s hs, hback s hs⟩

/-- The segment `a.\` is quoted and its backslash escapes the closing quote, so its written form
`'a.\'` does not read: the quoted segment is never closed. -/
theorem parse_join_quoted_trailing_backslash :
    parse (join ["a.\\"]) = .error (malformed (join ["a.\\"]) 0 "unterminated quoted segment") := by
  have hq : needsQuotes "a.\\" = true := (needsQuotes_iff _).mpr (.inl (by decide))
  have hlist : (join ["a.\\"]).toList = ['\'', 'a', '.', '\\', '\''] := by
    rw [toList_join, List.map_singleton, List.intercalate_singleton, toList_writeSegment,
      if_pos hq]
    rfl
  rw [parse_of_toList hlist (by decide)]
  rfl

end CoSimBridge.Path
