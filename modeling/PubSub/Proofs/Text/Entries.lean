import Mathlib
import PubSub.Text.Blank
import PubSub.Text.Split

/-!
# Entries in a text

Cutting a text at its separators is the splitting of lists (`Text.pieces_eq_splitOn`), so pieces
without separators that are put together are found again (`Text.pieces_intercalate`). An entry is a
name, a separator and all that follows: it is cut at the first separator, so what follows may hold
more of them (`Text.cut?_entry`).

The blanks at the two ends of a text go once and for all (`Text.trimmed_trim`).
-/

namespace PubSub.Text

variable {separator : Char} {s rest : List Char}

/-! ## Pieces -/

theorem pieces_eq_splitOn (separator : Char) (s : List Char) :
    pieces separator s = s.splitOn separator := by
  induction s with
  | nil => rfl
  | cons c cs ih =>
    rw [pieces, ih, List.splitOn_cons_eq_if_modifyHead]
    by_cases h : c = separator
    · rw [if_pos h, if_pos (beq_iff_eq.2 h)]
    · rw [if_neg h, if_neg (mt beq_iff_eq.1 h)]
      cases hpieces : cs.splitOn separator with
      | nil => exact absurd hpieces (by simp)
      | cons p ps => rfl

/-- Pieces without separators are found again. -/
theorem pieces_intercalate {ps : List (List Char)} (hne : ps ≠ [])
    (h : ∀ p ∈ ps, separator ∉ p) : pieces separator ([separator].intercalate ps) = ps := by
  rw [pieces_eq_splitOn, List.splitOn_intercalate separator h hne]

/-- Pieces without separators that are not empty are found again among those that are not, also if
there are none. -/
theorem filter_pieces_intercalate {ps : List (List Char)} (h : ∀ p ∈ ps, p ≠ [] ∧ separator ∉ p) :
    ((pieces separator ([separator].intercalate ps)).filter fun p => !p.isEmpty) = ps := by
  by_cases hne : ps = []
  · rw [hne, List.intercalate_nil]
    rfl
  · rw [pieces_intercalate hne fun p hp => (h p hp).2, List.filter_eq_self]
    exact fun p hp => by simpa using (h p hp).1

/-- Putting pieces together brings in separators only. -/
theorem not_mem_intercalate {c : Char} (hc : c ≠ separator) {ps : List (List Char)}
    (h : ∀ p ∈ ps, c ∉ p) : c ∉ [separator].intercalate ps := by
  induction ps with
  | nil => simp
  | cons p ps ih =>
    obtain ⟨hp, hps⟩ := List.forall_mem_cons.1 h
    cases ps with
    | nil => simpa using hp
    | cons q qs => simpa [List.intercalate_cons_cons, hp, hc] using ih hps

/-- There is no separator in a piece. -/
theorem not_mem_of_mem_pieces {p : List Char} (h : p ∈ pieces separator s) : separator ∉ p := by
  induction s generalizing p with
  | nil =>
    rw [pieces, List.mem_singleton] at h
    simp [h]
  | cons c cs ih =>
    rw [pieces] at h
    split at h
    · obtain rfl | h := List.mem_cons.1 h
      · simp
      · exact ih h
    · rename_i hc
      split at h
      · rename_i hnil
        exact absurd hnil (pieces_ne_nil separator cs)
      · rename_i piece others hpieces
        obtain rfl | h := List.mem_cons.1 h
        · have hpiece : separator ∉ piece := ih (by rw [hpieces]; exact List.mem_cons_self)
          simpa [Ne.symm hc] using hpiece
        · exact ih (by rw [hpieces]; exact List.mem_cons_of_mem _ h)

/-! ## Entries -/

/-- A name and what follows, with a separator in between. -/
def entry (separator : Char) (e : List Char × List Char) : List Char := e.1 ++ separator :: e.2

/-- An entry is cut behind its name. -/
theorem cut?_entry {e : List Char × List Char} (h : separator ∉ e.1) :
    cut? separator (entry separator e) = some e := by
  obtain ⟨name, rest⟩ := e
  rw [entry]
  induction name with
  | nil => simp [cut?]
  | cons c cs ih =>
    obtain ⟨hc, hcs⟩ : separator ≠ c ∧ separator ∉ cs := by simpa using h
    rw [List.cons_append, cut?, if_neg (Ne.symm hc), ih hcs]
    rfl

theorem filterMap_cut?_entries {es : List (List Char × List Char)}
    (h : ∀ e ∈ es, separator ∉ e.1) :
    (es.map (entry separator)).filterMap (cut? separator) = es := by
  rw [List.filterMap_map]
  exact (List.filterMap_congr fun e he => cut?_entry (h e he)).trans (List.filterMap_some)

/-- Entries between separators of another kind are found again. -/
theorem pieces_entries {other : Char} {es : List (List Char × List Char)} (hne : es ≠ [])
    (hother : other ≠ separator) (h : ∀ e ∈ es, other ∉ e.1 ∧ other ∉ e.2) :
    pieces other ([other].intercalate (es.map (entry separator))) = es.map (entry separator) := by
  refine pieces_intercalate (by simpa using hne) fun p hp => ?_
  obtain ⟨e, he, rfl⟩ := List.mem_map.1 hp
  simp [entry, h e he, hother]

/-! ## Blanks -/

/-- Text with no blank at either end. -/
def Trimmed (s : List Char) : Prop :=
  s.head?.any isBlank = false ∧ s.getLast?.any isBlank = false

instance (s : List Char) : Decidable (Trimmed s) := inferInstanceAs (Decidable (_ ∧ _))

theorem trimmed_of_forall (h : ∀ c ∈ s, isBlank c = false) : Trimmed s := by
  refine ⟨?_, ?_⟩
  · rw [Option.any_eq_false]
    exact fun c hc => h c (List.mem_of_head? hc)
  · rw [Option.any_eq_false]
    exact fun c hc => h c (List.mem_of_getLast? hc)

theorem trim_eq (s : List Char) : trim s = (s.dropWhile isBlank).rdropWhile isBlank := rfl

/-- There is nothing to trim at a text with no blank at either end. -/
theorem Trimmed.trim_eq_self (h : Trimmed s) : trim s = s := by
  obtain ⟨hhead, hlast⟩ := h
  have hfront : s.dropWhile isBlank = s := by
    cases s with
    | nil => rfl
    | cons c cs => exact List.dropWhile_cons_of_neg (Bool.eq_false_iff.1 hhead)
  rw [trim_eq, hfront, List.rdropWhile_eq_self_iff]
  intro hne
  rw [List.getLast?_eq_some_getLast hne] at hlast
  exact Bool.eq_false_iff.1 hlast

theorem sublist_trim (s : List Char) : (trim s).Sublist s :=
  (List.rdropWhile_prefix isBlank _).sublist.trans (List.dropWhile_suffix isBlank).sublist

/-- What is left of a text has no blank at either end. -/
theorem trimmed_trim (s : List Char) : Trimmed (trim s) := by
  by_cases hne : trim s = []
  · rw [hne]
    exact ⟨rfl, rfl⟩
  · refine ⟨?_, ?_⟩
    · -- The blanks at the back go last, so the first character is that of the text without the front.
      obtain ⟨back, hback⟩ := List.rdropWhile_prefix isBlank (s.dropWhile isBlank)
      have hhead : (s.dropWhile isBlank).head? = (trim s).head? := by
        rw [← hback]
        exact List.head?_append_of_ne_nil _ hne
      have hfirst := List.head?_dropWhile_not isBlank s
      rw [hhead] at hfirst
      cases hc : (trim s).head? with
      | none => rfl
      | some c => simpa [hc] using hfirst
    · rw [List.getLast?_eq_some_getLast hne]
      exact Bool.eq_false_iff.2 (List.rdropWhile_last_not isBlank (s.dropWhile isBlank) hne)

/-- Trimming leaves out characters only. -/
theorem not_mem_trim {c : Char} (h : c ∉ s) : c ∉ trim s := fun hc => h ((sublist_trim s).mem hc)

end PubSub.Text
