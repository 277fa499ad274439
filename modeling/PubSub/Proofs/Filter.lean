import PubSub.Filter
import PubSub.Proofs.Decimal.Characters
import PubSub.Proofs.Decimal.RoundTrip
import PubSub.Proofs.Text.Entries

/-!
# Filters as text

A filter is written as three entries between commas (`Filter.toList_shown`). Reading cuts the text
at every comma and each entry at its first equals sign, so what stands behind that sign may be
anything without commas, for instance the text of another entry. Patterns that have been read have
no comma and no blank at either end (`Filter.plain_of_parse`). Such patterns are read as they are
written, and so is any period (`Filter.parse_shown_of_plain`). So a filter that has been read is the
one that is read from its own text (`Filter.parse_shown`).
-/

namespace PubSub.Filter

open Text

/-! ## Periods -/

theorem raised_raised (x : Float) : Bounds.raised (Bounds.raised x) = Bounds.raised x := by
  by_cases h : 0.0 < x
  · have hraised : Bounds.raised x = x := if_pos h
    rw [hraised, hraised]
  · have hraised : Bounds.raised x = 0.0 := if_neg h
    rw [hraised]
    decide

/-- A number that is at least 0 compares equal to what it is raised to; only the negative zero
becomes another one. -/
theorem raised_beq {x : Float} (h : 0.0 ≤ x) : (Bounds.raised x == x) = true := by
  rw [Bounds.raised]
  split
  · exact Double.beq_self h
  · exact Double.zero_beq h ‹_›

/-! ## The entries of a filter -/

/-- A pattern without commas and with no blank at either end. -/
def Plain (pattern : String) : Prop := ',' ∉ pattern.toList ∧ Trimmed pattern.toList

instance (pattern : String) : Decidable (Plain pattern) := inferInstanceAs (Decidable (_ ∧ _))

/-- What a filter says, entry by entry. -/
def entries (f : Filter) : List (List Char × List Char) := [
  ("AppPattern".toList, f.sourcePattern.toList),
  ("VarPattern".toList, f.keyPattern.toList),
  ("Interval".toList, (Decimal.shortest f.period).toList)]

theorem toList_shown (f : Filter) :
    f.shown.toList = [','].intercalate (f.entries.map (entry '=')) := by
  simp [shown, entries, entry]

/-! ## Reading entries -/

namespace Draft

variable (d : Draft) (value : List Char)

theorem add?_source : d.add? ("AppPattern".toList, value) =
    some { d with sourcePattern := some (String.ofList (trim value)) } := rfl

theorem add?_key : d.add? ("VarPattern".toList, value) =
    some { d with keyPattern := some (String.ofList (trim value)) } := rfl

theorem add?_interval : d.add? ("Interval".toList, value) =
    (Decimal.read? (trim value)).map fun period => { d with period } := rfl

end Draft

section
variable {f : Filter} (hsource : Plain f.sourcePattern) (hkey : Plain f.keyPattern)
include hsource hkey

/-- The entries of a filter are found again. -/
theorem filterMap_pieces_shown :
    (pieces ',' f.shown.toList).filterMap (cut? '=') = f.entries := by
  have hperiod : ',' ∉ (Decimal.shortest f.period).toList := fun h =>
    (Decimal.isNumeric_of_mem_shortest h).ne_comma rfl
  have hcommas : ∀ e ∈ f.entries, ',' ∉ e.1 ∧ ',' ∉ e.2 := by
    simp [entries, hsource.1, hkey.1, hperiod]
  have hnames : ∀ e ∈ f.entries, '=' ∉ e.1 := by
    simp [entries]
  rw [toList_shown, pieces_entries (by simp [entries]) (by decide) hcommas,
    filterMap_cut?_entries hnames]

/-- A filter whose patterns are plain is read from its own text. -/
theorem parse_shown_of_plain :
    parse f.shown = .ok { f with period := Bounds.raised f.period } := by
  have hperiod : trim (Decimal.shortest f.period).toList = (Decimal.shortest f.period).toList := by
    refine (trimmed_of_forall fun c hc => ?_).trim_eq_self
    exact (Decimal.isNumeric_of_mem_shortest hc).isBlank
  have hdraft : f.entries.foldlM Draft.add? {} =
      some ⟨some f.sourcePattern, some f.keyPattern, f.period⟩ := by
    simp only [entries, List.foldlM_cons, List.foldlM_nil, Draft.add?_source, Draft.add?_key,
      Draft.add?_interval, hsource.2.trim_eq_self, hkey.2.trim_eq_self, hperiod,
      Decimal.read?_shortest, String.ofList_toList, Option.bind_eq_bind, Option.bind_some,
      Option.map_some, Option.pure_def]
  rw [parse, filterMap_pieces_shown hsource hkey]
  simp only [hdraft, Option.getD_some]

end

/-! ## Filters that have been read -/

/-- The patterns read so far are plain. -/
structure Draft.HasPlain (d : Draft) : Prop where
  source : ∀ p ∈ d.sourcePattern, Plain p
  key : ∀ p ∈ d.keyPattern, Plain p

theorem plain_trim {value : List Char} (h : ',' ∉ value) : Plain (String.ofList (trim value)) := by
  rw [Plain, String.toList_ofList]
  exact ⟨not_mem_trim h, trimmed_trim value⟩

theorem Draft.HasPlain.add? {d d' : Draft} (h : d.HasPlain) {e : List Char × List Char}
    (he : ',' ∉ e.2) (hadd : d.add? e = some d') : d'.HasPlain := by
  rw [Draft.add?] at hadd
  split at hadd
  · obtain rfl := Option.some.inj hadd
    exact ⟨by simpa using plain_trim he, h.key⟩
  · obtain rfl := Option.some.inj hadd
    exact ⟨h.source, by simpa using plain_trim he⟩
  · obtain ⟨period, -, rfl⟩ := Option.map_eq_some_iff.1 hadd
    exact ⟨h.source, h.key⟩
  · obtain rfl := Option.some.inj hadd
    exact h

theorem Draft.HasPlain.foldlM {d d' : Draft} (h : d.HasPlain) {es : List (List Char × List Char)}
    (hes : ∀ e ∈ es, ',' ∉ e.2) (hfold : es.foldlM Draft.add? d = some d') : d'.HasPlain := by
  induction es generalizing d with
  | nil =>
    obtain rfl := Option.some.inj hfold
    exact h
  | cons e es ih =>
    obtain ⟨he, hes⟩ := List.forall_mem_cons.1 hes
    rw [List.foldlM_cons] at hfold
    obtain ⟨next, hadd, hfold⟩ := Option.bind_eq_some_iff.1 hfold
    exact ih (h.add? he hadd) hes hfold

/-- What is read of a text without a comma has none. -/
theorem not_mem_of_mem_entries {s : List Char} {e : List Char × List Char}
    (h : e ∈ (pieces ',' s).filterMap (cut? '=')) : ',' ∉ e.2 := by
  obtain ⟨piece, hpiece, hcut⟩ := List.mem_filterMap.1 h
  intro hmem
  refine not_mem_of_mem_pieces hpiece ?_
  rw [eq_of_cut? hcut]
  simp [hmem]

/-- Patterns that have been read are plain, and the period is at least 0. -/
theorem plain_of_parse {s : String} {f : Filter} (h : parse s = .ok f) :
    Plain f.sourcePattern ∧ Plain f.keyPattern ∧ Bounds.raised f.period = f.period := by
  rw [parse] at h
  split at h
  · cases h
  · rename_i d hfold
    have hplain : d.HasPlain :=
      Draft.HasPlain.foldlM ⟨by simp, by simp⟩ (fun e => not_mem_of_mem_entries) hfold
    split at h
    · cases h
    · rename_i keyPattern hkey
      obtain rfl := Except.ok.inj h
      refine ⟨?_, hplain.key keyPattern hkey, raised_raised d.period⟩
      have hany : Plain "*" := by decide
      cases hsource : d.sourcePattern with
      | none => exact hany
      | some p => exact hplain.source p hsource

/-- A filter that has been read is read again from its own text. Any filter with plain patterns and
a period of at least 0 is read from its own text, as a filter that compares equal. -/
theorem parse_shown :
    (∀ s f, parse s = .ok f → parse f.shown = .ok f) ∧
    ∀ f : Filter, Plain f.sourcePattern → Plain f.keyPattern → 0.0 ≤ f.period →
      ∃ g, parse f.shown = .ok g ∧ g.samePatterns f = true ∧ (g.period == f.period) = true := by
  refine ⟨fun s f h => ?_, fun f hsource hkey hperiod => ?_⟩
  · obtain ⟨hsource, hkey, hraised⟩ := plain_of_parse h
    rw [parse_shown_of_plain hsource hkey, hraised]
  · exact ⟨_, parse_shown_of_plain hsource hkey, by simp [samePatterns], raised_beq hperiod⟩

/-- A filter whose patterns look like entries of its text. -/
def disguised : Filter :=
  { sourcePattern := "VarPattern=Y", keyPattern := "a=b = c", period := 0.5 }

theorem parse_shown_disguised :
    parse " varpattern= a=b = c ,APPPATTERN=VarPattern=Y,Interval=0.50" = .ok disguised ∧
      parse disguised.shown = .ok disguised ∧
      ∃ g, parse disguised.shown = .ok g ∧ g.samePatterns disguised = true ∧
        (g.period == disguised.period) = true := by
  have hparse :
      parse " varpattern= a=b = c ,APPPATTERN=VarPattern=Y,Interval=0.50" =
      .ok disguised := by decide +kernel
  exact ⟨hparse, parse_shown.1 _ _ hparse,
    parse_shown.2 _ (by decide) (by decide) (by decide)⟩

end PubSub.Filter
