import Mathlib
import CoSimBridge.Types.Descriptor
/-!
# Canonical type tokens

Reading a type token trims white space at every level, takes one trailing `?` as the optional
mark, opens `List<…>` in any case, looks primitive aliases up in any case and keeps any other
name as written. `Descriptor.Parsed` describes the trees reading can give: lists of such trees,
leaves of a kind some alias names, and custom leaves whose name is trimmed, has none of the
characters `<>?, ` and is no alias. The canonical token of such a tree reads back as the tree
(`parse_toToken`), and two such trees are the same type exactly when their canonical tokens are
equal (`parse_toToken_canonical`).
-/

namespace CoSimBridge

set_option autoImplicit false

open Text (trimList isSpace)

/-! ## Trimmed characters -/

namespace Text

/-- No white space at either end. -/
def Trimmed (cs : List Char) : Prop :=
  cs.head?.any isSpace = false ∧ cs.getLast?.any isSpace = false

theorem trimList_eq_self {cs : List Char} (h : Trimmed cs) : trimList cs = cs := by
  obtain ⟨hhead, hlast⟩ := h
  have hfront : cs.dropWhile isSpace = cs := by
    cases cs with
    | nil => rfl
    | cons c cs => simp_all
  have hback : cs.reverse.dropWhile isSpace = cs.reverse := by
    rw [← List.head?_reverse] at hlast
    cases hr : cs.reverse with
    | nil => rfl
    | cons c rs => simp_all
  rw [trimList, hfront, hback, List.reverse_reverse]

theorem trimmed_trimList (cs : List Char) : Trimmed (trimList cs) := by
  have hfront := List.head?_dropWhile_not isSpace cs
  have hback := List.head?_dropWhile_not isSpace (cs.dropWhile isSpace).reverse
  constructor
  · rw [trimList, List.head?_reverse]
    by_cases hne : (cs.dropWhile isSpace).reverse.dropWhile isSpace = []
    · rw [hne]
      rfl
    -- the last character kept is the first one the front trimming kept
    rw [List.getLast?_eq_some_getLast hne, (List.dropWhile_suffix isSpace).getLast hne,
      List.getLast_reverse]
    rw [List.head?_eq_some_head (fun h => hne (by simp [h]))] at hfront
    exact hfront
  · rw [trimList, List.getLast?_reverse]
    cases h : ((cs.dropWhile isSpace).reverse.dropWhile isSpace).head? with
    | none => rfl
    | some c =>
      rw [h] at hback
      exact hback

theorem trimList_trimList (cs : List Char) : trimList (trimList cs) = trimList cs :=
  trimList_eq_self (trimmed_trimList cs)

end Text

namespace Descriptor

/-! ## The trees reading gives -/

/-- Characters reading keeps as a name: some, no white space at either end, and none of the
characters `<`, `>`, `?`, `,` and space that reading refuses in a name. -/
def NameChars (cs : List Char) : Prop :=
  cs ≠ [] ∧ Text.Trimmed cs ∧
    cs.any (fun c => c == '<' || c == '>' || c == '?' || c == ',' || c == ' ') = false

/-- The trees reading a type token gives: lists of such trees, leaves of a kind that an alias
names, and custom leaves named by characters reading keeps that are no alias; nothing is
bound. -/
inductive Parsed : Descriptor → Prop
  | list {o : Bool} {e : Descriptor} : e.Parsed → (Descriptor.list o e).Parsed
  | primitive {o : Bool} {k : Kind} : k ∈ Kind.aliases.map Prod.snd →
      (Descriptor.leaf o k "" .unbound).Parsed
  | custom {o : Bool} {n : String} : NameChars n.toList → Kind.lookupPrimitive n = none →
      (Descriptor.leaf o .custom n .unbound).Parsed

/-- The optional mark a canonical token ends with. -/
def optionalMark (o : Bool) : List Char := if o then ['?'] else []

theorem toList_toToken_list (o : Bool) (e : Descriptor) :
    (Descriptor.list o e).toToken.toList =
      "List<".toList ++ e.toToken.toList ++ ['>'] ++ optionalMark o := by
  cases o <;> simp [toToken, optionalMark]

theorem toList_toToken_leaf (o : Bool) (k : Kind) (n : String) (b : Binding) :
    (Descriptor.leaf o k n b).toToken.toList =
      (if k == .custom || (k == .enum && n != "") then n else k.name).toList ++ optionalMark o := by
  cases o <;> simp [toToken, optionalMark]

/-- Every kind an alias names is written as a name that reading keeps and that looks the kind
up again. -/
theorem name_of_mem_aliases : ∀ k ∈ (Kind.aliases.map Prod.snd).dedup,
    k ≠ .custom ∧ NameChars k.name.toList ∧ Kind.lookupPrimitive k.name = some k := by
  unfold NameChars Text.Trimmed
  decide +kernel

theorem trimmed_append_optionalMark {cs : List Char} (hne : cs ≠ []) (h : Text.Trimmed cs)
    (o : Bool) : Text.Trimmed (cs ++ optionalMark o) := by
  cases o with
  | false => simpa [optionalMark] using h
  | true =>
    refine ⟨by rw [List.head?_append_of_ne_nil _ hne]; exact h.1, ?_⟩
    rw [optionalMark, if_pos rfl, List.getLast?_concat]
    rfl

theorem trimmed_toToken {d : Descriptor} (hd : d.Parsed) : Text.Trimmed d.toToken.toList := by
  cases hd with
  | @list o _ _ =>
    -- a list token runs from `L` to `>` or `?`
    rw [toList_toToken_list]
    refine ⟨rfl, ?_⟩
    cases o with
    | false =>
      rw [optionalMark, if_neg Bool.false_ne_true, List.append_nil, List.getLast?_concat]
      rfl
    | true =>
      rw [optionalMark, if_pos rfl, List.getLast?_concat]
      rfl
  | @primitive o k hk =>
    obtain ⟨hcustom, ⟨hne, htrim, -⟩, -⟩ := name_of_mem_aliases k (List.mem_dedup.mpr hk)
    rw [toList_toToken_leaf, if_neg (by simp [hcustom])]
    exact trimmed_append_optionalMark hne htrim o
  | @custom o n hn _ =>
    rw [toList_toToken_leaf, if_pos (by simp)]
    exact trimmed_append_optionalMark hn.1 hn.2.1 o

theorem depth_le_length_toToken {d : Descriptor} (hd : d.Parsed) :
    d.depth ≤ d.toToken.toList.length := by
  induction hd with
  | list _ ih =>
    have h5 : "List<".toList.length = 5 := rfl
    rw [depth, toList_toToken_list]
    simp only [List.length_append, h5]
    omega
  | primitive _ => exact Nat.zero_le _
  | custom _ _ => exact Nat.zero_le _

/-! ## Reading canonical tokens -/

theorem eq_of_toLower_eq_lt {c : Char} (h : c.toLower = '<') : c = '<' := by
  unfold Char.toLower at h
  split at h
  · rename_i hup
    -- an upper-case letter goes to a lower-case one, and `<` is none
    have hv := congrArg (fun c : Char => c.val.toNat) h
    have hd : ('a'.val - 'A'.val).toNat = 32 := by decide
    have hlt : '<'.val.toNat = 60 := by decide
    have hA : 'A'.val.toNat = 65 := by decide
    have hup' : 'A'.val.toNat ≤ c.val.toNat := hup.1
    have hsize : c.val.toNat < 4294967296 := c.val.toNat_lt
    simp only [UInt32.toNat_add, hd, hlt] at hv
    omega
  · exact h

/-- Characters without `<` never open a list, whatever their case. -/
theorem startsWithList_eq_false {cs : List Char} (h : '<' ∉ cs) : startsWithList cs = false := by
  rw [Bool.eq_false_iff]
  intro hs
  have h5 : ((cs.take 5).map Char.toLower)[4]? = some '<' := by
    rw [beq_iff_eq.mp hs]
    rfl
  rw [List.getElem?_map] at h5
  obtain ⟨c, hc, hcl⟩ := Option.map_eq_some_iff.mp h5
  exact h (eq_of_toLower_eq_lt hcl ▸ List.mem_of_mem_take (List.mem_of_getElem? hc))

theorem not_mem_of_nameChars {cs : List Char} (h : NameChars cs) {c : Char}
    (hc : c = '<' ∨ c = '>' ∨ c = '?' ∨ c = ',' ∨ c = ' ') : c ∉ cs := by
  intro hmem
  have := List.any_eq_false.mp h.2.2 c hmem
  rcases hc with rfl | rfl | rfl | rfl | rfl <;> simp at this

/-- A name, optionally marked, reads as a leaf: of the kind it is an alias of, else custom. -/
theorem parseChars_name {cs : List Char} (hcs : NameChars cs) (o : Bool) (fuel : Nat) :
    parseChars (fuel + 1) (cs ++ optionalMark o) =
      .ok ((Kind.lookupPrimitive (String.ofList cs)).elim
        (.leaf o .custom (String.ofList cs) .unbound) fun k => .leaf o k "" .unbound) := by
  have hne : cs.isEmpty = false := by simpa using hcs.1
  have hq : (cs.getLast? == some '?') = false := by
    rw [beq_eq_false_iff_ne]
    exact fun h => not_mem_of_nameChars hcs (by simp) (List.mem_of_getLast? h)
  have hlist := startsWithList_eq_false (not_mem_of_nameChars hcs (.inl rfl))
  cases o with
  | false =>
    rw [optionalMark, if_neg Bool.false_ne_true, List.append_nil, parseChars]
    simp [hne, hq, hlist, hcs.2.2]
    cases Kind.lookupPrimitive (String.ofList cs) <;> rfl
  | true =>
    rw [optionalMark, if_pos rfl, parseChars]
    simp [hne, Text.trimList_eq_self hcs.2.1, hq, hlist, hcs.2.2]
    cases Kind.lookupPrimitive (String.ofList cs) <;> rfl

/-- A list token reads as a list of what its element token reads as. -/
theorem parseChars_list {cs : List Char} (hcs : Text.Trimmed cs) (o : Bool) (fuel : Nat) :
    parseChars (fuel + 1) ("List<".toList ++ cs ++ ['>'] ++ optionalMark o) =
      (parseChars fuel cs).map (.list o) := by
  have htok : Text.Trimmed ("List<".toList ++ cs ++ ['>']) :=
    ⟨rfl, by rw [List.getLast?_concat]; rfl⟩
  have hlast : ("List<".toList ++ cs ++ ['>']).getLast? = some '>' := List.getLast?_concat
  have hlen : 5 ≤ ("List<".toList ++ cs ++ ['>']).length := by simp
  have hlist : startsWithList ("List<".toList ++ cs ++ ['>']) = true := rfl
  have hinner : Text.trimList ((List.drop 5 ("List<".toList ++ cs ++ ['>'])).dropLast) = cs := by
    rw [show List.drop 5 ("List<".toList ++ cs ++ ['>']) = cs ++ ['>'] from rfl,
      List.dropLast_concat, Text.trimList_eq_self hcs]
  -- reading looks at the list token only through these facts
  generalize "List<".toList ++ cs ++ ['>'] = t at htok hlast hlen hlist hinner ⊢
  have hne : t.isEmpty = false := by
    cases t with
    | nil => cases hlast
    | cons _ _ => rfl
  cases o with
  | false =>
    rw [optionalMark, if_neg Bool.false_ne_true, List.append_nil, parseChars]
    simp [hne, hlast, hlen, hlist, hinner]
    cases parseChars fuel cs <;> rfl
  | true =>
    rw [optionalMark, if_pos rfl, parseChars]
    simp [Text.trimList_eq_self htok, hne, hlast, hlen, hlist, hinner]
    cases parseChars fuel cs <;> rfl

/-- The canonical token of a tree reading gives reads back as the tree, with fuel above its
depth. -/
theorem parseChars_toToken {d : Descriptor} (hd : d.Parsed) {fuel : Nat} (hfuel : d.depth < fuel) :
    parseChars fuel d.toToken.toList = .ok d := by
  cases fuel with
  | zero => exact absurd hfuel (Nat.not_lt_zero _)
  | succ fuel =>
    induction hd generalizing fuel with
    | @list o e he ih =>
      rw [depth] at hfuel
      cases fuel with
      | zero => omega
      | succ fuel =>
        rw [toList_toToken_list, parseChars_list (trimmed_toToken he), ih fuel (by omega)]
        rfl
    | @primitive o k hk =>
      obtain ⟨hcustom, hname, hlookup⟩ := name_of_mem_aliases k (List.mem_dedup.mpr hk)
      rw [toList_toToken_leaf, if_neg (by simp [hcustom]), parseChars_name hname,
        String.ofList_toList, hlookup]
      rfl
    | @custom o n hn hlookup =>
      rw [toList_toToken_leaf, if_pos (by simp), parseChars_name hn, String.ofList_toList, hlookup]
      rfl

/-- The canonical token of a tree reading gives reads as that tree. -/
theorem parse_toToken {d : Descriptor} (hd : d.Parsed) : parse d.toToken = .ok d := by
  have hfuel : d.depth < d.toToken.toList.length + 1 :=
    Nat.lt_succ_of_le (depth_le_length_toToken hd)
  simp only [parse, Text.trimList_eq_self (trimmed_toToken hd), parseChars_toToken hd hfuel]

/-! ## What reading gives -/

theorem mem_aliases_of_lookupPrimitive {s : String} {k : Kind}
    (h : Kind.lookupPrimitive s = some k) : k ∈ Kind.aliases.map Prod.snd := by
  rw [Kind.lookupPrimitive] at h
  obtain ⟨p, hp, rfl⟩ := Option.map_eq_some_iff.mp h
  exact List.mem_map_of_mem (List.mem_of_find?_eq_some hp)

/-- Every tree reading a trimmed token gives is one that `Parsed` describes. -/
theorem parsed_of_parseChars : ∀ {fuel : Nat} {tok : List Char} {d : Descriptor},
    Text.Trimmed tok → parseChars fuel tok = .ok d → d.Parsed
  | 0, _, _, _, h => by cases h
  | fuel + 1, tok, d, htok, h => by
    rw [parseChars] at h
    split at h
    · cases h
    rename_i hne
    -- what is left once the optional mark is taken off is trimmed, and empty only after a mark
    obtain ⟨⟨o, t⟩, hpair⟩ : ∃ p, (if tok.getLast? == some '?' then
        (true, Text.trimList tok.dropLast) else (false, tok)) = p := ⟨_, rfl⟩
    have ht : Text.Trimmed t ∧ (o = false → t ≠ []) := by
      split at hpair
      · cases hpair
        exact ⟨Text.trimmed_trimList _, nofun⟩
      · cases hpair
        exact ⟨htok, fun _ hnil => hne (by simp [hnil])⟩
    rw [hpair] at h
    dsimp only at h
    split at h
    · cases h
    rename_i hmark
    split at h
    · -- a list: its element reads from the trimmed inside
      split at h
      · cases h
      split at h
      · rename_i e he
        cases h
        exact .list (parsed_of_parseChars (Text.trimmed_trimList _) he)
      · cases h
    split at h
    · cases h
    rename_i hany
    have htne : t ≠ [] := by
      cases o with
      | false => exact ht.2 rfl
      | true =>
        rintro rfl
        simp at hmark
    have hname : NameChars t := ⟨htne, ht.1, by simpa using hany⟩
    split at h
    · rename_i k hk
      cases h
      exact .primitive (mem_aliases_of_lookupPrimitive hk)
    · rename_i hk
      cases h
      exact .custom (by rwa [String.toList_ofList]) hk

/-- Every tree a token reads as is one that `Parsed` describes. -/
theorem parsed_of_parse {t : String} {d : Descriptor} (h : parse t = .ok d) : d.Parsed := by
  dsimp only [parse] at h
  split at h
  · rename_i hd
    cases h
    exact parsed_of_parseChars (Text.trimmed_trimList _) hd
  · cases h

/-! ## Sameness and canonical tokens -/

theorem same_self : ∀ d : Descriptor, d.same d = true
  | .list _ e => by simp [same, same_self e]
  | .leaf _ _ _ _ => by simp [same]

/-- On the trees reading gives, nothing is bound, so being the same type is being equal. -/
theorem eq_of_same {d e : Descriptor} (hd : d.Parsed) (he : e.Parsed) (h : d.same e = true) :
    d = e := by
  induction hd generalizing e with
  | list _ ih =>
    cases he with
    | list he =>
      obtain ⟨rfl, hsame⟩ := by simpa [same] using h
      rw [ih he hsame]
    | primitive _ => simp [same] at h
    | custom _ _ => simp [same] at h
  | primitive _ => cases he <;> simp_all [same]
  | custom _ _ => cases he <;> simp_all [same]

/-- A token reads as a tree `Parsed` describes once it reads as some tree of the same type, so
what a concrete token reads as can be checked by evaluating `same`. -/
theorem parse_eq_ok_of_same {t : String} {d : Descriptor} (hd : d.Parsed)
    (h : (parse t).toOption.map (·.same d) = some true) : parse t = .ok d := by
  cases ht : parse t with
  | error m => simp [ht, Except.toOption] at h
  | ok e =>
    simp only [ht, Except.toOption, Option.map_some, Option.some.injEq] at h
    rw [eq_of_same (parsed_of_parse ht) hd h]

/-- Type tokens have a canonical form: the canonical token of what a token reads as reads back
as the same tree, and two tokens read as the same type exactly when their readings have one
canonical token. -/
theorem parse_toToken_canonical {t u : String} {d e : Descriptor} (ht : parse t = .ok d)
    (hu : parse u = .ok e) :
    parse d.toToken = .ok d ∧ (d.same e = true ↔ d.toToken = e.toToken) := by
  have hd := parsed_of_parse ht
  have he := parsed_of_parse hu
  refine ⟨parse_toToken hd, fun h => by rw [eq_of_same hd he h], fun h => ?_⟩
  -- equal canonical tokens read back as both trees
  have hde : d = e := by
    have h' := parse_toToken he
    rwa [← h, parse_toToken hd, Except.ok.injEq] at h'
  rw [hde]
  exact same_self e

/-- White space, case and aliases do not matter: ` list< int ? > ?` and `LIST<integer?>?` read as
the optional list of optional `Int32`, written `List<Int32?>?`. -/
theorem parse_toToken_canonical_spaced_alias :
    parse " list< int ? > ?" = .ok (.list true (.leaf true .int32 "" .unbound)) ∧
      parse "LIST<integer?>?" = .ok (.list true (.leaf true .int32 "" .unbound)) ∧
      parse "List<Int32?>?" = .ok (.list true (.leaf true .int32 "" .unbound)) := by
  have hd : (Descriptor.list true (.leaf true .int32 "" .unbound)).Parsed :=
    .list (.primitive (by decide))
  have ht := parse_eq_ok_of_same (t := " list< int ? > ?") hd (by decide +kernel)
  have hu := parse_eq_ok_of_same (t := "LIST<integer?>?") hd (by decide +kernel)
  have hc := parse_toToken_canonical ht hu
  exact ⟨ht, hu, hc.1⟩

end Descriptor

end CoSimBridge
