import PubSub.Proofs.Pattern.Cuts

/-!
# Patterns as texts

Matching goes byte by byte. Read as texts, a pattern and a subject are matched character by
character all the same, as long as no `?` meets a character of several bytes
(`matchesPattern_iff_cuts`): a byte of a pattern's character fits no byte inside another character,
so wherever a piece of the pattern starts to fit, a character of the subject starts.

An end of the subject's bytes that begins inside a character stands for the characters from that one
on (`Belongs`). Only a `*` can take up there, and it might as well have begun with the character.
-/

namespace PubSub.Pattern

/-- The bytes of some characters. -/
def spell (cs : List Char) : List UInt8 := cs.flatMap String.utf8EncodeChar

theorem toList_toUTF8 (s : String) : s.toUTF8.data.toList = spell s.toList := by
  rw [String.toUTF8_eq_toByteArray, ← String.utf8Encode_toList, List.utf8Encode,
    List.toList_data_toByteArray, spell]

theorem spell_cons (c : Char) (cs : List Char) :
    spell (c :: cs) = String.utf8EncodeChar c ++ spell cs :=
  List.flatMap_cons

theorem spell_suffix {cs ds : List Char} (h : ds <:+ cs) : spell ds <:+ spell cs := by
  obtain ⟨before, rfl⟩ := h
  exact ⟨spell before, List.flatMap_append.symm⟩

/-! ## The bytes of one character -/

theorem utf8EncodeChar_of_lt {c : Char} (hc : c.toNat < 128) :
    String.utf8EncodeChar c = [UInt8.ofNat c.toNat] := by
  rw [String.utf8EncodeChar]
  exact if_pos (Nat.le_of_lt_succ hc)

/-- A byte below 128 only occurs as the one byte of a character. -/
theorem toNat_eq_of_mem {c : Char} {b : UInt8} (hb : b ∈ String.utf8EncodeChar c)
    (hsmall : b.toNat < 128) : c.toNat = b.toNat := by
  by_cases hc : c.toNat < 128
  · rw [utf8EncodeChar_of_lt hc, List.mem_singleton] at hb
    rw [hb, UInt8.toNat_ofNat', Nat.mod_eq_of_lt (by omega)]
  · -- Every byte of a longer character has its highest bit set.
    have hlarge : ¬ c.val.toNat ≤ 0x7f := fun hle => hc (Nat.lt_succ_of_le hle)
    rw [String.utf8EncodeChar, if_neg hlarge] at hb
    split at hb <;> [skip; split at hb] <;>
      simp only [List.mem_cons, List.not_mem_nil, or_false] at hb <;>
      rcases hb with rfl | rfl | rfl | rfl <;>
      · rw [UInt8.toNat_ofNat'] at hsmall
        omega

/-- The first byte of a character is not among the later ones of any other. -/
theorem head_ne_of_mem_tail {c d : Char} {b : UInt8} (hb : b ∈ (String.utf8EncodeChar c).tail) :
    (String.utf8EncodeChar d).head? ≠ some b := by
  obtain ⟨i, hi, rfl⟩ := List.mem_iff_getElem.1 hb
  have hlater : ¬ (String.utf8EncodeChar c).tail[i].IsUTF8FirstByte := by
    rw [List.getElem_tail, UInt8.isUTF8FirstByte_getElem_utf8EncodeChar]
    omega
  intro hhead
  rw [List.head?_eq_getElem?, List.getElem?_eq_some_iff] at hhead
  obtain ⟨hzero, hhead⟩ := hhead
  exact hlater (hhead ▸ UInt8.isUTF8FirstByte_getElem_utf8EncodeChar.2 rfl)

theorem ne_of_mem {b : UInt8} {c d : Char} (hb : b ∈ String.utf8EncodeChar c) (hd : d.toNat < 128)
    (hne : c ≠ d) : b ≠ UInt8.ofNat d.toNat := by
  rintro rfl
  have htoNat : (UInt8.ofNat d.toNat).toNat = d.toNat := by
    rw [UInt8.toNat_ofNat', Nat.mod_eq_of_lt (by omega)]
  have heq := toNat_eq_of_mem hb (by rwa [htoNat])
  rw [htoNat] at heq
  exact hne (Char.toNat_inj.1 heq)

/-! ## Bytes and the characters they belong to -/

/-- Bytes at the end of a text belong to its last characters. Of the first character, bytes may be
missing. -/
inductive Belongs : List UInt8 → List Char → Prop
  | whole (cs : List Char) : Belongs (spell cs) cs
  | cut {c : Char} {left : List UInt8} {cs : List Char} (hleft : left ≠ [])
      (htail : left <:+ (String.utf8EncodeChar c).tail) : Belongs (left ++ spell cs) (c :: cs)

theorem Belongs.suffix {bytes : List UInt8} {cs : List Char} (h : Belongs bytes cs) :
    bytes <:+ spell cs := by
  cases h with
  | whole => exact List.suffix_rfl
  | cut _ htail =>
    rw [spell_cons, List.suffix_append_self_iff]
    exact htail.trans (List.tail_suffix _)

/-- Wherever the end of a text's bytes begins, its bytes belong to some last characters. -/
theorem exists_belongs {bytes : List UInt8} {cs : List Char} (h : bytes <:+ spell cs) :
    ∃ ds, ds <:+ cs ∧ Belongs bytes ds := by
  induction cs with
  | nil =>
    rw [spell, List.flatMap_nil, List.suffix_nil] at h
    exact ⟨[], List.suffix_rfl, h ▸ .whole []⟩
  | cons c cs ih =>
    rw [spell_cons] at h
    obtain hlater | ⟨left, rfl⟩ := List.suffix_or_suffix_of_suffix h (List.suffix_append ..)
    · obtain ⟨ds, hds, hbelongs⟩ := ih hlater
      exact ⟨ds, hds.trans (List.suffix_cons ..), hbelongs⟩
    · rw [List.suffix_append_self_iff] at h
      obtain ⟨first, more, hbytes⟩ :=
        List.exists_cons_of_ne_nil (String.utf8EncodeChar_ne_nil (c := c))
      rw [hbytes, List.suffix_cons_iff, ← hbytes] at h
      obtain rfl | hleft := h
      · exact ⟨c :: cs, List.suffix_rfl, spell_cons c cs ▸ .whole (c :: cs)⟩
      · by_cases hnil : left = []
        · exact ⟨cs, List.suffix_cons .., by rw [hnil]; exact .whole cs⟩
        · exact ⟨c :: cs, List.suffix_rfl, .cut hnil (by rwa [hbytes, List.tail_cons])⟩

theorem Belongs.exists_suffix {bytes rest : List UInt8} {cs : List Char} (h : Belongs bytes cs)
    (hrest : rest <:+ bytes) : ∃ ds, ds <:+ cs ∧ Belongs rest ds :=
  exists_belongs (hrest.trans h.suffix)

/-- Bytes that start with those of a character belong to this one and others behind it. -/
theorem Belongs.exists_cons {c : Char} {rest : List UInt8} {cs : List Char}
    (h : Belongs (String.utf8EncodeChar c ++ rest) cs) : ∃ ds, cs = c :: ds ∧ rest = spell ds := by
  generalize hbytes : String.utf8EncodeChar c ++ rest = bytes at h
  cases h with
  | whole cs =>
    have hprefix : [c] <+: cs := by
      refine List.isPrefix_of_utf8Encode_append_eq_utf8Encode rest.toByteArray ?_
      rw [List.utf8Encode, List.utf8Encode, ← List.toByteArray_append, List.flatMap_singleton,
        hbytes, spell]
    obtain ⟨ds, rfl⟩ := hprefix
    rw [List.singleton_append, spell_cons] at hbytes
    exact ⟨ds, rfl, List.append_cancel_left hbytes⟩
  | @cut d left cs hleft htail =>
    -- A byte inside a character starts none.
    obtain ⟨b, left, rfl⟩ := List.exists_cons_of_ne_nil hleft
    have hhead := congrArg List.head? hbytes
    rw [List.head?_append_of_ne_nil _ String.utf8EncodeChar_ne_nil] at hhead
    exact absurd hhead (head_ne_of_mem_tail (htail.subset (.head _)))

/-! ## Reading bytes and reading characters -/

theorem utf8EncodeChar_star : String.utf8EncodeChar '*' = [star] := rfl

theorem utf8EncodeChar_anyOne : String.utf8EncodeChar '?' = [anyOne] := rfl

/-- Bytes of a pattern that stand for themselves are read off the front of the subject. -/
theorem reads_append_iff {literal pattern subject : List UInt8}
    (h : ∀ b ∈ literal, b ≠ star ∧ b ≠ anyOne) :
    Reads star anyOne (literal ++ pattern) subject ↔
      ∃ rest, subject = literal ++ rest ∧ Reads star anyOne pattern rest := by
  induction literal generalizing subject with
  | nil => simp
  | cons b literal ih =>
    obtain ⟨⟨hstar, hone⟩, hliteral⟩ := List.forall_mem_cons.1 h
    constructor
    · intro hreads
      cases hreads with
      | same hfits hreads =>
        obtain ⟨rest, rfl, hrest⟩ := (ih hliteral).1 hreads
        obtain rfl := hfits.resolve_left hone
        exact ⟨rest, rfl, hrest⟩
      | skip => exact absurd rfl hstar
    · rintro ⟨rest, rfl, hrest⟩
      exact .same (.inr rfl) ((ih hliteral).2 ⟨rest, rfl, hrest⟩)

theorem literal_of_ne {c : Char} (hstar : c ≠ '*') (hone : c ≠ '?') :
    ∀ b ∈ String.utf8EncodeChar c, b ≠ star ∧ b ≠ anyOne := fun _ hb =>
  ⟨ne_of_mem hb (d := '*') (by decide) hstar, ne_of_mem hb (d := '?') (by decide) hone⟩

/-- No `?` can meet a character of several bytes. -/
def Bytewise (pattern cs : List Char) : Prop := '?' ∉ pattern ∨ ∀ c ∈ cs, c.toNat < 128

theorem Bytewise.mono {pattern pattern' cs cs' : List Char} (h : Bytewise pattern cs)
    (hpattern : pattern' ⊆ pattern) (hcs : cs' ⊆ cs) : Bytewise pattern' cs' :=
  h.imp (fun hone hmem => hone (hpattern hmem)) fun hsmall c hc => hsmall c (hcs hc)

theorem Belongs.eq_nil {cs : List Char} (h : Belongs [] cs) : cs = [] := by
  generalize hbytes : ([] : List UInt8) = bytes at h
  cases h with
  | whole cs =>
    cases cs with
    | nil => rfl
    | cons c cs => exact absurd (List.append_eq_nil_iff.1 hbytes.symm).1 String.utf8EncodeChar_ne_nil
  | cut hleft => exact absurd (List.append_eq_nil_iff.1 hbytes.symm).1 hleft

/-- A character of one byte is never cut. -/
theorem Belongs.eq_spell {bytes : List UInt8} {c : Char} {cs : List Char}
    (h : Belongs bytes (c :: cs)) (hc : c.toNat < 128) :
    bytes = UInt8.ofNat c.toNat :: spell cs := by
  cases h with
  | whole => rw [spell_cons, utf8EncodeChar_of_lt hc, List.singleton_append]
  | cut hleft htail =>
    rw [utf8EncodeChar_of_lt hc, List.tail_cons, List.suffix_nil] at htail
    exact absurd htail hleft

/-- Characters are read where their bytes are. -/
theorem reads_of_belongs {pattern cs : List Char} {bytes : List UInt8}
    (hbelongs : Belongs bytes cs) (hbytewise : Bytewise pattern cs)
    (h : Reads star anyOne (spell pattern) bytes) : Reads '*' '?' pattern cs := by
  induction pattern generalizing bytes cs with
  | nil =>
    cases h
    obtain rfl := hbelongs.eq_nil
    exact .nil
  | cons p pattern ih =>
    by_cases hstar : p = '*'
    · subst hstar
      rw [spell_cons, utf8EncodeChar_star, List.singleton_append] at h
      cases h with
      | @same _ b _ bytes hfits h =>
        obtain rfl : star = b := hfits.resolve_left (by decide)
        obtain ⟨ds, rfl, rfl⟩ := Belongs.exists_cons (c := '*') hbelongs
        exact .same (.inr rfl) (ih (.whole ds)
          (hbytewise.mono (List.subset_cons_self ..) (List.subset_cons_self ..)) h)
      | skip hopen hrest h =>
        obtain ⟨ds, hds, hbelongs'⟩ := hbelongs.exists_suffix hrest
        refine .skip (fun hhead => hopen ?_) hds
          (ih hbelongs' (hbytewise.mono (List.subset_cons_self ..) hds.subset) h)
        obtain ⟨es, rfl⟩ := List.head?_eq_some_iff.1 hhead
        rw [hbelongs.eq_spell (by decide), List.head?_cons]
        rfl
    · by_cases hone : p = '?'
      · subst hone
        rw [spell_cons, utf8EncodeChar_anyOne, List.singleton_append] at h
        have hsmall := hbytewise.resolve_left (not_not.2 (.head _))
        cases cs with
        | nil =>
          have hnil : bytes = [] := List.suffix_nil.1 hbelongs.suffix
          rw [hnil, reads_nil_iff] at h
          exact absurd (List.all_eq_true.1 h _ (.head _)) (by decide)
        | cons c cs =>
          rw [hbelongs.eq_spell (hsmall c (.head _)), reads_cons_cons_iff, if_pos (.inl rfl)] at h
          exact .same (.inl rfl) (ih (.whole cs)
            (hbytewise.mono (List.subset_cons_self ..) (List.subset_cons_self ..)) h)
      · rw [spell_cons, reads_append_iff (literal_of_ne hstar hone)] at h
        obtain ⟨rest, rfl, h⟩ := h
        obtain ⟨ds, rfl, rfl⟩ := hbelongs.exists_cons
        exact .same (.inr rfl) (ih (.whole ds)
          (hbytewise.mono (List.subset_cons_self ..) (List.subset_cons_self ..)) h)

theorem Reads.append_left {pattern subject : List UInt8} (h : Reads star anyOne pattern subject)
    (bytes : List UInt8) : Reads star anyOne (bytes ++ pattern) (bytes ++ subject) := by
  induction bytes with
  | nil => exact h
  | cons b bytes ih => exact .same (.inr rfl) ih

/-- Bytes are read where their characters are. -/
theorem Reads.spell {pattern cs : List Char} (h : Reads '*' '?' pattern cs)
    (hbytewise : Bytewise pattern cs) : Reads star anyOne (spell pattern) (spell cs) := by
  induction h with
  | nil => exact .nil
  | @same p c pattern cs hfits _ ih =>
    have ih := ih (hbytewise.mono (List.subset_cons_self ..) (List.subset_cons_self ..))
    rw [spell_cons, spell_cons]
    obtain rfl | rfl := hfits
    · have hsmall := hbytewise.resolve_left (not_not.2 (.head _))
      rw [utf8EncodeChar_of_lt (hsmall c (.head _))]
      exact .same (.inl rfl) ih
    · exact ih.append_left _
  | @skip pattern cs ds hopen hds _ ih =>
    rw [spell_cons, utf8EncodeChar_star]
    refine .skip ?_ ?_ (ih (hbytewise.mono (List.subset_cons_self ..) hds.subset))
    · cases cs with
      | nil => simp [Pattern.spell]
      | cons c cs =>
        have hc : c ≠ '*' := by simpa using hopen
        rw [spell_cons, List.head?_append_of_ne_nil _ String.utf8EncodeChar_ne_nil]
        intro hhead
        exact ne_of_mem (List.mem_of_mem_head? hhead) (d := '*') (by decide) hc rfl
    · exact spell_suffix hds

theorem reads_spell_iff {pattern cs : List Char} (h : Bytewise pattern cs) :
    Reads star anyOne (spell pattern) (spell cs) ↔ Reads '*' '?' pattern cs :=
  ⟨reads_of_belongs (.whole cs) h, fun hreads => hreads.spell h⟩

theorem matchesPattern_eq_fits (pattern s : String) :
    matchesPattern pattern s = fits (spell pattern.toList) (spell s.toList) := by
  rw [matchesPattern, toList_toUTF8, toList_toUTF8]

/-- A text is matched exactly if its characters are read along the pattern, as long as no `?` can
meet a character of several bytes. It can then be cut into pieces that the elements of the pattern
take in turn; and a text without a `*` that can be cut so is matched. -/
theorem matchesPattern_iff_cuts (pattern s : String)
    (h : '?' ∉ pattern.toList ∨ ∀ c ∈ s.toList, c.toNat < 128) :
    (matchesPattern pattern s = true ↔ Reads '*' '?' pattern.toList s.toList) ∧
      (matchesPattern pattern s = true → Cuts '*' '?' pattern.toList s.toList) ∧
      ('*' ∉ s.toList →
        (matchesPattern pattern s = true ↔ Cuts '*' '?' pattern.toList s.toList)) := by
  have hreads : matchesPattern pattern s = true ↔ Reads '*' '?' pattern.toList s.toList := by
    rw [matchesPattern_eq_fits, fits_eq_true_iff, reads_spell_iff h]
  refine ⟨hreads, fun hmatches => (hreads.1 hmatches).cuts, fun hs => ?_⟩
  rw [hreads, reads_iff_cuts hs]

/-- Characters of several bytes are no hindrance to a pattern without a `?`. -/
theorem matchesPattern_iff_cuts_accent :
    '?' ∉ "*é*n*".toList ∧ '*' ∉ "caféine".toList ∧ Cuts '*' '?' "*é*n*".toList "caféine".toList := by
  have hone : '?' ∉ "*é*n*".toList := by decide +kernel
  have hs : '*' ∉ "caféine".toList := by decide +kernel
  have hmatches : matchesPattern "*é*n*" "caféine" = true := by
    rw [matchesPattern_eq_fits]
    cbv
  exact ⟨hone, hs, ((matchesPattern_iff_cuts "*é*n*" "caféine" (.inl hone)).2.2 hs).1 hmatches⟩

/-- Where the subject has a `*` of its own, and where a `?` meets a character of two bytes, texts
are matched that cannot be cut, and texts that can be cut are not matched. -/
theorem matching_misses_cuts :
    (Cuts '*' '?' "*a".toList "*ba".toList ∧ matchesPattern "*a" "*ba" = false) ∧
      (Cuts '*' '?' "?".toList "é".toList ∧ matchesPattern "?" "é" = false) ∧
      (¬ Cuts '*' '?' "??".toList "é".toList ∧ matchesPattern "??" "é" = true) := by
  simp only [matchesPattern_eq_fits]
  refine ⟨⟨⟨[['*', 'b'], ['a']], rfl, ?_⟩, by cbv⟩, ⟨⟨[['é']], rfl, ?_⟩, by cbv⟩, ?_, by cbv⟩
  · exact .cons (.star _) (.cons (.same (by decide) (by decide)) .nil)
  · exact .cons (.one 'é') .nil
  · rw [← reads_iff_cuts (by decide)]
    intro h
    obtain _ | ⟨_, h⟩ := h
    cases h

end PubSub.Pattern
