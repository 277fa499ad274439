import Mathlib
import PubSub.Table

/-!
# Tables through their look-up

`Table.get?` sees all there is of a table: one equation for each operation says what a look-up finds
after it, and `Table.mem_entries_iff` says that the entries are what look-ups find.
-/

namespace PubSub.Table

variable {α β : Type}

theorem mem_entries_iff {t : Table α} {name : String} {a : α} :
    (name, a) ∈ t.entries ↔ t.get? name = some a := by
  obtain ⟨entries, sorted⟩ := t
  show (name, a) ∈ entries ↔ (entries.find? (·.1 == name)).map (·.2) = some a
  induction entries with
  | nil => simp
  | cons e entries ih =>
    obtain ⟨hhead, htail⟩ := List.pairwise_cons.1 sorted
    by_cases h : e.1 = name
    · have habsent : (name, a) ∉ entries := fun hmem =>
        String.lt_irrefl name (by simpa [h] using hhead _ hmem)
      obtain ⟨key, value⟩ := e
      obtain rfl : key = name := h
      simp [habsent, eq_comm]
    · have hne : (name, a) ≠ e := fun heq => h (by rw [← heq])
      rw [List.find?_cons_of_neg (by simpa using h), ← ih htail, List.mem_cons]
      exact or_iff_right hne

theorem contains_eq_true_iff {t : Table α} {name : String} :
    t.contains name = true ↔ ∃ a, t.get? name = some a := by
  rw [contains, Option.isSome_iff_exists]

/-- A name is in a table only once. -/
theorem nodup_names (t : Table α) : t.names.Nodup :=
  List.pairwise_map.2 (t.sorted.imp String.ne_of_lt)

theorem mem_names_iff {t : Table α} {name : String} :
    name ∈ t.names ↔ t.contains name = true := by
  simp only [names, List.mem_map, contains_eq_true_iff, ← mem_entries_iff]
  constructor
  · rintro ⟨⟨_, a⟩, hmem, rfl⟩
    exact ⟨a, hmem⟩
  · rintro ⟨a, hmem⟩
    exact ⟨(name, a), hmem, rfl⟩

@[simp] theorem get?_empty (name : String) : (∅ : Table α).get? name = none := rfl

theorem find?_insertEntry (name key : String) (value : α) (es : List (String × α))
    (h : es.Pairwise fun a b => a.1 < b.1) :
    ((insertEntry key value es).find? (·.1 == name)).map (·.2) =
      if name = key then some value else (es.find? (·.1 == name)).map (·.2) := by
  induction es with
  | nil =>
    by_cases hn : name = key
    · simp [insertEntry, hn]
    · simp [insertEntry, hn, Ne.symm hn]
  | cons e es ih =>
    obtain ⟨hhead, htail⟩ := List.pairwise_cons.1 h
    have ih := ih htail
    grind [insertEntry]

theorem get?_insert (t : Table α) (key name : String) (value : α) :
    (t.insert key value).get? name = if name = key then some value else t.get? name :=
  find?_insertEntry name key value t.entries t.sorted

theorem get?_filter (t : Table α) (p : String → α → Bool) (name : String) :
    (t.filter p).get? name = (t.get? name).filter (p name) := by
  refine Option.ext fun a => ?_
  rw [Option.filter_eq_some_iff, ← mem_entries_iff, ← mem_entries_iff]
  simp [filter]

theorem get?_erase (t : Table α) (key name : String) :
    (t.erase key).get? name = if name = key then none else t.get? name := by
  rw [erase, get?_filter]
  by_cases h : name = key
  · simp [h]
  · cases t.get? name <;> simp [h]

theorem get?_map (t : Table α) (f : String → α → β) (name : String) :
    (t.map f).get? name = (t.get? name).map (f name) := by
  refine Option.ext fun b => ?_
  rw [Option.map_eq_some_iff, ← mem_entries_iff]
  simp only [← mem_entries_iff, map, List.mem_map, Prod.mk.injEq, Prod.exists]
  constructor
  · rintro ⟨_, a, hmem, rfl, rfl⟩
    exact ⟨a, hmem, rfl⟩
  · rintro ⟨a, hmem, rfl⟩
    exact ⟨name, a, hmem, rfl, rfl⟩

@[simp] theorem map_id (t : Table α) : (t.map fun _ a => a) = t := by
  simp [map]

theorem map_congr {t : Table α} {f g : String → α → β} (h : ∀ name a, f name a = g name a) :
    t.map f = t.map g := by
  simp only [map, h]

theorem map_map {γ : Type} (t : Table α) (f : String → α → β) (g : String → β → γ) :
    (t.map f).map g = t.map fun name a => g name (f name a) := by
  simp [map]

theorem get?_modify (t : Table α) (key name : String) (f : α → α) :
    (t.modify key f).get? name = if name = key then (t.get? name).map f else t.get? name := by
  rw [modify, get?_map]
  by_cases h : name = key <;> simp [h]

@[simp] theorem contains_empty (name : String) : (∅ : Table α).contains name = false := rfl

theorem contains_insert (t : Table α) (key name : String) (value : α) :
    (t.insert key value).contains name = (name == key || t.contains name) := by
  rw [contains, get?_insert]
  by_cases h : name = key <;> simp [h, contains]

theorem contains_erase (t : Table α) (key name : String) :
    (t.erase key).contains name = (name != key && t.contains name) := by
  rw [contains, get?_erase]
  by_cases h : name = key <;> simp [h, contains]

theorem contains_map (t : Table α) (f : String → α → β) (name : String) :
    (t.map f).contains name = t.contains name := by
  rw [contains, get?_map, Option.isSome_map, contains]

/-- A table without entries has no names. -/
theorem contains_of_isEmpty {t : Table α} (h : t.entries.isEmpty = true) (name : String) :
    t.contains name = false := by
  rw [contains, get?, List.isEmpty_iff.1 h]
  rfl

/-- Tables in which every look-up finds the same are the same. -/
theorem ext_get? {t u : Table α} (h : ∀ name, t.get? name = u.get? name) : t = u := by
  have hnodup (t : Table α) : t.entries.Nodup := .of_map _ t.nodup_names
  have hmem (e : String × α) : e ∈ t.entries ↔ e ∈ u.entries := by
    rw [show e = (e.1, e.2) from rfl, mem_entries_iff, mem_entries_iff, h]
  have hperm : t.entries.Perm u.entries :=
    (List.perm_ext_iff_of_nodup (hnodup t) (hnodup u)).2 hmem
  have hentries : t.entries = u.entries :=
    hperm.eq_of_pairwise (fun a b _ _ hab hba => absurd (String.lt_trans hab hba)
      (String.lt_irrefl a.1)) t.sorted u.sorted
  obtain ⟨entries, sorted⟩ := t
  obtain rfl : entries = u.entries := hentries
  rfl

/-- Without entries there is nothing to change. -/
theorem map_of_isEmpty {t : Table α} (h : t.entries.isEmpty = true) (f : String → α → α) :
    t.map f = t := ext_get? fun name => by
  have hget : t.get? name = none := by
    rw [get?, List.isEmpty_iff.1 h]
    rfl
  rw [get?_map, hget, Option.map_none]

/-- A value that is there already. -/
theorem insert_eq_self {t : Table α} {name : String} {a : α} (h : t.get? name = some a) :
    t.insert name a = t := ext_get? fun key => by
  rw [get?_insert]
  split
  · rename_i hkey
    rw [hkey, h]
  · rfl

theorem modify_insert (t : Table α) (name : String) (a : α) (f : α → α) :
    (t.insert name a).modify name f = t.insert name (f a) := ext_get? fun key => by
  rw [get?_modify, get?_insert, get?_insert]
  split <;> rfl

/-- Entering the values of one table into another one. -/
theorem get?_foldl_insert (u : Table β) (f : β → α) (t : Table α) (name : String) :
    (u.entries.foldl (fun t e => t.insert e.1 (f e.2)) t).get? name =
      ((u.get? name).map f).or (t.get? name) := by
  obtain ⟨entries, sorted⟩ := u
  show _ = (((entries.find? (·.1 == name)).map (·.2)).map f).or (t.get? name)
  induction entries generalizing t with
  | nil => rfl
  | cons e entries ih =>
    obtain ⟨hhead, htail⟩ := List.pairwise_cons.1 sorted
    rw [List.foldl_cons, ih _ htail, get?_insert]
    by_cases h : e.1 = name
    · have habsent : entries.find? (·.1 == name) = none := List.find?_eq_none.2 fun x hx hname =>
        String.lt_irrefl name (by simpa [h, beq_iff_eq.1 hname] using hhead x hx)
      simp [h, habsent]
    · simp [h, Ne.symm h]

/-- A view on which only the entry of one name has an effect, after going through all entries. -/
theorem view_foldl_entries {γ δ : Type} (u : Table β) (step : γ → String × β → γ) (view : γ → δ)
    {name : String} (hother : ∀ c e, e.1 ≠ name → view (step c e) = view c) (c : γ) :
    ∃ before, view before = view c ∧ view (u.entries.foldl step c) =
      match u.get? name with
      | some a => view (step before (name, a))
      | none => view c := by
  obtain ⟨entries, sorted⟩ := u
  show ∃ before, view before = view c ∧ view (entries.foldl step c) =
    match (entries.find? (·.1 == name)).map (·.2) with
    | some a => view (step before (name, a))
    | none => view c
  induction entries generalizing c with
  | nil => exact ⟨c, rfl, rfl⟩
  | cons e entries ih =>
    obtain ⟨hhead, htail⟩ := List.pairwise_cons.1 sorted
    obtain ⟨before, hbefore, hview⟩ := ih (step c e) htail
    by_cases h : e.1 = name
    · have habsent : entries.find? (·.1 == name) = none := List.find?_eq_none.2 fun x hx hname =>
        String.lt_irrefl name (by simpa [h, beq_iff_eq.1 hname] using hhead x hx)
      rw [habsent] at hview
      refine ⟨c, rfl, ?_⟩
      rw [List.foldl_cons, List.find?_cons_of_pos (by simpa using h)]
      obtain ⟨key, value⟩ := e
      obtain rfl : key = name := h
      exact hview
    · rw [hother c e h] at hbefore hview
      refine ⟨before, hbefore, ?_⟩
      rw [List.foldl_cons, List.find?_cons_of_neg (by simpa using h)]
      exact hview

end PubSub.Table
