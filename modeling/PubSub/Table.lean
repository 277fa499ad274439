/-!
# Tables

A `Table` maps names to values and keeps its entries in the order of the names, which for UTF-8 text
is the order of the bytes. `Table.get?` is the view in which each operation has one equation.
-/

namespace PubSub

/-- Values by name, in the order of the names. -/
structure Table (α : Type) where
  entries : List (String × α)
  sorted : entries.Pairwise fun a b => a.1 < b.1
deriving DecidableEq

namespace Table

variable {α β : Type}

/-- No entries. -/
def empty : Table α := ⟨[], .nil⟩

instance : EmptyCollection (Table α) := ⟨empty⟩

instance : Inhabited (Table α) := ⟨empty⟩

/-- The names in order. -/
def names (t : Table α) : List String := t.entries.map (·.1)

/-- The values in the order of their names. -/
def values (t : Table α) : List α := t.entries.map (·.2)

/-- The value of a name. -/
def get? (t : Table α) (name : String) : Option α :=
  (t.entries.find? (·.1 == name)).map (·.2)

/-- Whether a name has a value. -/
def contains (t : Table α) (name : String) : Bool := (t.get? name).isSome

/-- Entries in order with one more among them, in the place of one with the same name. -/
def insertEntry (name : String) (value : α) : List (String × α) → List (String × α)
  | [] => [(name, value)]
  | e :: es =>
    if name < e.1 then (name, value) :: e :: es
    else if name = e.1 then (name, value) :: es
    else e :: insertEntry name value es

theorem mem_insertEntry {name : String} {value : α} {es : List (String × α)} {x : String × α}
    (h : x ∈ insertEntry name value es) : x = (name, value) ∨ x ∈ es := by
  fun_induction insertEntry name value es with
  | case1 => simpa using h
  | case2 => simpa using h
  | case3 => grind
  | case4 _ _ _ _ ih => grind

theorem sorted_insertEntry (name : String) (value : α) (es : List (String × α))
    (h : es.Pairwise fun a b => a.1 < b.1) :
    (insertEntry name value es).Pairwise fun a b => a.1 < b.1 := by
  induction es with
  | nil => simp [insertEntry]
  | cons e es ih =>
    have htail := (List.pairwise_cons.1 h).2
    have hhead := (List.pairwise_cons.1 h).1
    unfold insertEntry
    split
    · rename_i hlt
      refine List.pairwise_cons.2 ⟨fun x hx => ?_, h⟩
      rcases List.mem_cons.1 hx with rfl | hx
      · exact hlt
      · exact String.lt_trans hlt (hhead x hx)
    · split
      · rename_i _ heq
        exact List.pairwise_cons.2 ⟨fun x hx => heq ▸ hhead x hx, htail⟩
      · rename_i hnlt hne
        refine List.pairwise_cons.2 ⟨fun x hx => ?_, ih htail⟩
        rcases mem_insertEntry hx with rfl | hx
        · exact Classical.byContradiction fun hge =>
            hne (String.le_antisymm hge hnlt)
        · exact hhead x hx

/-- The table with a value for a name, instead of any it had. -/
def insert (t : Table α) (name : String) (value : α) : Table α :=
  ⟨insertEntry name value t.entries, sorted_insertEntry _ _ _ t.sorted⟩

/-- The entries that pass a test. -/
def filter (t : Table α) (p : String → α → Bool) : Table α :=
  ⟨t.entries.filter fun e => p e.1 e.2, t.sorted.filter _⟩

/-- The table without a name. -/
def erase (t : Table α) (name : String) : Table α := t.filter fun n _ => n != name

/-- The table with every value changed. -/
def map (t : Table α) (f : String → α → β) : Table β :=
  ⟨t.entries.map fun e => (e.1, f e.1 e.2), List.pairwise_map.2 t.sorted⟩

/-- The table with the value of one name changed, if it has one. -/
def modify (t : Table α) (name : String) (f : α → α) : Table α :=
  t.map fun n a => if n = name then f a else a

end Table

/-- A set of names in order. -/
abbrev NameSet := Table Unit

/-- The set with one more name. -/
def NameSet.add (s : NameSet) (name : String) : NameSet := s.insert name ()

end PubSub
