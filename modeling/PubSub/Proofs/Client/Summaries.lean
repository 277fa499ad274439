import PubSub.Client.CommsStatus
import PubSub.Proofs.Broker.Run
import PubSub.Proofs.Text.Entries

/-!
# Summaries as clients read them

The broker tells in one text who reads and writes which variables, with separators of four kinds. As
long as no name holds one of those that end it, a client that reads the text finds for each
connected client the names of just these variables (`CommsStatus.read_readWriteSummary`).

A summary is read as a whole before any status changes. So a client that keeps its statuses in one
table, and changes them there entry by entry (`CommsStatus.InPlace.apply`), is left with the table
as it was when a summary is refused (`CommsStatus.InPlace.run_apply`).
-/

namespace PubSub

namespace Broker

variable {b : Broker}

/-- The names, in order, of the variables that pass a test. -/
def Lists (b : Broker) (p : Variable → Bool) (names : List String) : Prop :=
  names.Pairwise (· < ·) ∧ ∀ key, key ∈ names ↔ ∃ v, b.store.get? key = some v ∧ p v = true

theorem Named.name_of_mem_entries (hn : b.Named) {e : String × Variable}
    (he : e ∈ b.store.entries) : e.2.name = e.1 :=
  hn e.1 e.2 (Table.mem_entries_iff.1 he)

/-- The entries' own names are those of their variables. -/
theorem namesWhere_eq (hn : b.Named) (p : Variable → Bool) :
    b.namesWhere p = (b.store.filter fun _ v => p v).names := by
  rw [namesWhere, Table.values, List.filter_map, List.map_map]
  exact List.map_congr_left fun e he => hn.name_of_mem_entries (List.mem_of_mem_filter he)

theorem lists_namesWhere (hn : b.Named) (p : Variable → Bool) : b.Lists p (b.namesWhere p) := by
  rw [namesWhere_eq hn]
  refine ⟨List.pairwise_map.2 (Table.sorted _), fun key => ?_⟩
  rw [Table.mem_names_iff, Table.contains_eq_true_iff]
  refine exists_congr fun v => ?_
  rw [Table.get?_filter, Option.filter_eq_some_iff]

theorem mem_names_of_mem_namesWhere (hn : b.Named) {p : Variable → Bool} {key : String}
    (h : key ∈ b.namesWhere p) : key ∈ b.store.names := by
  obtain ⟨v, hv, -⟩ := ((lists_namesWhere hn p).2 key).1 h
  exact Table.mem_names_iff.2 (Table.contains_eq_true_iff.2 ⟨v, hv⟩)

end Broker

namespace CommsStatus

open Text (entry)

/-! ## The text and its parts -/

/-- Names between colons. -/
def namesText (names : List String) : List Char := [':'].intercalate (names.map String.toList)

/-- What a summary tells of one client, behind its name. -/
def clientText (b : Broker) (client : String) : List Char :=
  entry '&' (namesText (b.subscribedBy client), namesText (b.writtenBy client))

theorem toList_readWriteSummary (b : Broker) :
    b.readWriteSummary.toList = [','].intercalate (b.clients.names.map fun client =>
      entry '=' (client.toList, clientText b client)) := by
  rw [Broker.readWriteSummary, String.toList_intercalate, List.map_map]
  refine congrArg ([','].intercalate ·) (List.map_congr_left fun client _ => ?_)
  simp [entry, clientText, namesText, String.toList_intercalate]

theorem readNames_namesText {names : List String}
    (h : ∀ name ∈ names, name ≠ "" ∧ ':' ∉ name.toList) : readNames (namesText names) = names := by
  have hparts : ∀ p ∈ names.map String.toList, p ≠ [] ∧ ':' ∉ p := fun p hp => by
    obtain ⟨name, hname, rfl⟩ := List.mem_map.1 hp
    simpa using h name hname
  rw [readNames, namesText, Text.filter_pieces_intercalate hparts, List.map_map]
  exact (List.map_congr_left fun name _ => String.ofList_toList).trans (List.map_id' names)

/-- Any separator but a colon that is in none of the names. -/
theorem not_mem_namesText {c : Char} (hc : c ≠ ':') {names : List String}
    (h : ∀ name ∈ names, c ∉ name.toList) : c ∉ namesText names :=
  Text.not_mem_intercalate hc fun p hp => by
    obtain ⟨name, hname, rfl⟩ := List.mem_map.1 hp
    exact h name hname

theorem readEntry_entry {client : String} {rest : List Char} (hne : client ≠ "")
    (h : '=' ∉ client.toList) :
    readEntry (entry '=' (client.toList, rest)) = .ok (client, rest) := by
  simp [readEntry, Text.cut?_entry (e := (client.toList, rest)) h, hne]

theorem mapM_readEntry_entries {clients : List String} {rest : String → List Char}
    (h : ∀ client ∈ clients, client ≠ "" ∧ '=' ∉ client.toList) :
    (clients.map fun client => entry '=' (client.toList, rest client)).mapM readEntry =
      .ok (clients.map fun client => (client, rest client)) := by
  induction clients with
  | nil => rfl
  | cons client clients ih =>
    obtain ⟨⟨hne, hequals⟩, htail⟩ := List.forall_mem_cons.1 h
    rw [List.map_cons, List.mapM_cons, readEntry_entry hne hequals, ih htail]
    rfl

theorem readEntries_entries {clients : List String} {rest : String → List Char} {summary : String}
    (hsummary : summary.toList =
      [','].intercalate (clients.map fun client => entry '=' (client.toList, rest client)))
    (hclients : ∀ client ∈ clients, client ≠ "" ∧ ',' ∉ client.toList ∧ '=' ∉ client.toList)
    (hrest : ∀ client ∈ clients, ',' ∉ rest client) :
    readEntries summary = .ok (clients.map fun client => (client, rest client)) := by
  have hparts : ∀ p ∈ clients.map fun client => entry '=' (client.toList, rest client),
      p ≠ [] ∧ ',' ∉ p := fun p hp => by
    obtain ⟨client, hclient, rfl⟩ := List.mem_map.1 hp
    simp [entry, hclients client hclient, hrest client hclient]
  rw [readEntries, hsummary, Text.filter_pieces_intercalate hparts]
  exact mapM_readEntry_entries fun client hclient =>
    ⟨(hclients client hclient).1, (hclients client hclient).2.2⟩

/-! ## The statuses -/

variable (change : CommsStatus → List Char → CommsStatus)

/-- The statuses once an entry has been taken into account. -/
def takeEntry (statuses : Table CommsStatus) (e : String × List Char) : Table CommsStatus :=
  statuses.insert e.1 (change ((statuses.get? e.1).getD { name := e.1 }) e.2)

theorem apply_eq (statuses : Table CommsStatus) (summary : String) :
    apply change statuses summary =
      (readEntries summary).map fun es => es.foldl (takeEntry change) statuses := by
  rw [apply]
  cases readEntries summary <;> rfl

/-- A client that has an entry has one only, so its status changes once. -/
theorem get?_foldl_takeEntry (clients : NameSet) (rest : String → List Char)
    (statuses : Table CommsStatus) (name : String) :
    ((clients.names.map fun client => (client, rest client)).foldl (takeEntry change)
        statuses).get? name =
      if clients.contains name then
        some (change ((statuses.get? name).getD { name }) (rest name))
      else statuses.get? name := by
  obtain ⟨before, hbefore, hafter⟩ := clients.view_foldl_entries
    (fun statuses e => takeEntry change statuses (e.1, rest e.1)) (Table.get? · name)
    (fun statuses e he => (Table.get?_insert ..).trans (if_neg (Ne.symm he))) statuses
  rw [Table.names, List.map_map, List.foldl_map]
  refine hafter.trans ?_
  rw [Table.contains]
  cases clients.get? name with
  | none => rfl
  | some _ => exact (Table.get?_insert ..).trans (by rw [if_pos rfl, hbefore]; rfl)

/-! ## In place -/

/-- A computation on the statuses. What it has done stays if it fails. -/
abbrev InPlace := EStateM Error (Table CommsStatus)

namespace InPlace

/-- Makes a status for a client, if there is none. -/
def enter (client : String) : InPlace Unit := modify fun statuses =>
  if statuses.contains client then statuses else statuses.insert client { name := client }

/-- Changes the status of a client. -/
def alter (client : String) (f : CommsStatus → CommsStatus) : InPlace Unit :=
  modify fun statuses => statuses.modify client f

/-- Takes an entry into account. -/
def take (e : String × List Char) : InPlace Unit := do
  enter e.1
  alter e.1 fun s => change s e.2

/-- Takes a summary into account, entry by entry once all have been read. -/
def apply (summary : String) : InPlace Unit := do
  (← ofExcept (readEntries summary)).forM (take change)

/-- A new table after success, and the table as it was after a failure. -/
def outcome (statuses : Table CommsStatus) :
    Except Error (Table CommsStatus) → EStateM.Result Error (Table CommsStatus) Unit
  | .ok after => .ok () after
  | .error e => .error e statuses

theorem run_enter (client : String) (statuses : Table CommsStatus) :
    (enter client).run statuses =
      .ok () (statuses.insert client ((statuses.get? client).getD { name := client })) := by
  refine congrArg (EStateM.Result.ok ()) ?_
  cases h : statuses.get? client with
  | none =>
    have hnone : statuses.contains client = false := by rw [Table.contains, h]; rfl
    exact if_neg (Bool.eq_false_iff.1 hnone)
  | some s =>
    have hsome : statuses.contains client = true := Table.contains_eq_true_iff.2 ⟨s, h⟩
    exact (if_pos hsome).trans (Table.insert_eq_self h).symm

theorem run_take (e : String × List Char) (statuses : Table CommsStatus) :
    (take change e).run statuses = .ok () (takeEntry change statuses e) := by
  rw [take, EStateM.run_bind, run_enter]
  exact congrArg (EStateM.Result.ok ()) (Table.modify_insert ..)

theorem run_forM_take (es : List (String × List Char)) (statuses : Table CommsStatus) :
    (es.forM (take change)).run statuses = .ok () (es.foldl (takeEntry change) statuses) := by
  induction es generalizing statuses with
  | nil => rfl
  | cons e es ih =>
    rw [List.forM_eq_forM, List.forM_cons, EStateM.run_bind, run_take]
    exact ih (takeEntry change statuses e)

/-- In place a summary does what it does to a table of its own, and nothing if it is refused. -/
theorem run_apply (summary : String) (statuses : Table CommsStatus) :
    (apply change summary).run statuses =
      outcome statuses (CommsStatus.apply change statuses summary) := by
  rw [apply, apply_eq, EStateM.run_bind]
  cases readEntries summary with
  | error e => rfl
  | ok es => exact run_forM_take change es statuses

end InPlace

/-! ## Which summaries are refused -/

theorem readEntry_fails_iff {p : List Char} (hp : p ≠ []) :
    (∃ e, readEntry p = .error e) ↔ p.head? = some '=' := by
  obtain ⟨c, cs, rfl⟩ := List.exists_cons_of_ne_nil hp
  rw [readEntry, Text.cut?]
  by_cases hc : c = '='
  · simp [hc]
  · -- The name goes on at least to the first character.
    rw [if_neg hc]
    cases Text.cut? '=' cs <;> simp [hc]

theorem mapM_readEntry_fails_iff {ps : List (List Char)} (h : ∀ p ∈ ps, p ≠ []) :
    (∃ e, ps.mapM readEntry = .error e) ↔ ∃ p ∈ ps, p.head? = some '=' := by
  induction ps with
  | nil => simp [pure, Except.pure]
  | cons p ps ih =>
    obtain ⟨hp, hps⟩ := List.forall_mem_cons.1 h
    rw [List.mapM_cons, List.exists_mem_cons_iff, ← ih hps, ← readEntry_fails_iff hp]
    cases readEntry p with
    | error e => exact ⟨fun _ => .inl ⟨e, rfl⟩, fun _ => ⟨e, rfl⟩⟩
    | ok x =>
      cases ps.mapM readEntry with
      | error e => exact ⟨fun _ => .inr ⟨e, rfl⟩, fun _ => ⟨e, rfl⟩⟩
      | ok xs => simp [bind, Except.bind, pure, Except.pure]

/-- A summary is refused if and only if one of its entries begins with `=`. -/
theorem apply_fails_iff (statuses : Table CommsStatus) (summary : String) :
    (∃ e, apply change statuses summary = .error e) ↔
      ∃ p ∈ Text.pieces ',' summary.toList, p.head? = some '=' := by
  have hentries : (∃ e, readEntries summary = .error e) ↔
      ∃ p ∈ Text.pieces ',' summary.toList, p.head? = some '=' := by
    rw [readEntries, mapM_readEntry_fails_iff fun p hp => by simpa using List.of_mem_filter hp]
    refine exists_congr fun p => and_congr_left fun hhead => ?_
    have hne : p ≠ [] := by
      rintro rfl
      cases hhead
    simp [hne]
  rw [← hentries, apply_eq]
  cases readEntries summary with
  | error e => simp [Except.map]
  | ok es => simp [Except.map]

/-! ## What a client learns -/

section
variable {b : Broker} (hn : b.Named)
  (hclients : ∀ client ∈ b.clients.names,
    client ≠ "" ∧ ',' ∉ client.toList ∧ '=' ∉ client.toList)
  (hvariables : ∀ key ∈ b.store.names,
    key ≠ "" ∧ ',' ∉ key.toList ∧ ':' ∉ key.toList ∧ '&' ∉ key.toList)
include hn hvariables

theorem forall_mem_namesWhere (p : Variable → Bool) : ∀ name ∈ b.namesWhere p,
    name ≠ "" ∧ ',' ∉ name.toList ∧ ':' ∉ name.toList ∧ '&' ∉ name.toList := fun name hname =>
  hvariables name (Broker.mem_names_of_mem_namesWhere hn hname)

theorem comma_not_mem_clientText (client : String) : ',' ∉ clientText b client := by
  have hcomma (p : Variable → Bool) : ',' ∉ namesText (b.namesWhere p) :=
    not_mem_namesText (by decide) fun name hname =>
      (forall_mem_namesWhere hn hvariables p name hname).2.1
  simp [clientText, entry, Broker.subscribedBy, Broker.writtenBy, hcomma]

theorem withNames_clientText (client : String) (s : CommsStatus) :
    s.withNames (clientText b client) =
      { s with subscribes := b.subscribedBy client, publishes := b.writtenBy client } := by
  have hnames := forall_mem_namesWhere hn hvariables
  have hamp : '&' ∉ namesText (b.subscribedBy client) :=
    not_mem_namesText (by decide) fun name hname => (hnames _ name hname).2.2.2
  have hread (p : Variable → Bool) : readNames (namesText (b.namesWhere p)) = b.namesWhere p :=
    readNames_namesText fun name hname => ⟨(hnames p name hname).1, (hnames p name hname).2.2.1⟩
  rw [withNames, clientText, Text.cut?_entry hamp]
  exact congrArg₂ (fun subscribes publishes => { s with subscribes, publishes }) (hread _) (hread _)

include hclients

theorem applyReadWrite_readWriteSummary (statuses : Table CommsStatus) :
    applyReadWrite statuses b.readWriteSummary =
      .ok ((b.clients.names.map fun client => (client, clientText b client)).foldl
        (takeEntry withNames) statuses) := by
  rw [applyReadWrite, apply_eq, readEntries_entries (toList_readWriteSummary b) hclients
    fun client _ => comma_not_mem_clientText hn hvariables client]
  rfl

end

/-- The summary of who reads and writes what, from any state that a broker reaches. As long as no
name is empty or holds a separator that ends it, a client can read the summary, and learns for each
connected client the names of just the variables that it reads and writes, in order. It learns
nothing else: the latencies stay, and so do the statuses of other clients. A summary that is refused,
of this kind or of latencies, changes no status in place. -/
theorem read_readWriteSummary (config : Broker.Config) (startTime : Float)
    (ops : List (Float × Broker.Op)) (b : Broker)
    (hb : b = Broker.performAll ops (Broker.start config startTime))
    (hclients : ∀ client ∈ b.clients.names,
      client ≠ "" ∧ ',' ∉ client.toList ∧ '=' ∉ client.toList)
    (hvariables : ∀ key ∈ b.store.names,
      key ≠ "" ∧ ',' ∉ key.toList ∧ ':' ∉ key.toList ∧ '&' ∉ key.toList) :
    (∀ statuses : Table CommsStatus, ∃ after,
      applyReadWrite statuses b.readWriteSummary = .ok after ∧
        (∀ client, b.clients.contains client = true → ∃ subscribes publishes,
          b.Lists (fun v => v.isSubscribed client) subscribes ∧
          b.Lists (fun v => v.writers.contains client) publishes ∧
          after.get? client = some { (statuses.get? client).getD { name := client } with
            subscribes, publishes }) ∧
        ∀ client, b.clients.contains client = false →
          after.get? client = statuses.get? client) ∧
      ∀ (statuses : Table CommsStatus) (summary : String) (e : Error),
        (applyReadWrite statuses summary = .error e →
          (InPlace.apply withNames summary).run statuses = .error e statuses) ∧
        (applyQuality statuses summary = .error e →
          (InPlace.apply withLatencies summary).run statuses = .error e statuses) := by
  have hn : b.Named := hb ▸ (Broker.named_start config startTime).performAll ops
  refine ⟨fun statuses => ⟨_, applyReadWrite_readWriteSummary hn hclients hvariables statuses,
    fun client hclient => ?_, fun client hclient => ?_⟩,
    fun statuses summary e => ⟨fun h => ?_, fun h => ?_⟩⟩
  · refine ⟨b.subscribedBy client, b.writtenBy client, Broker.lists_namesWhere hn _,
      Broker.lists_namesWhere hn _, ?_⟩
    rw [get?_foldl_takeEntry, if_pos hclient, withNames_clientText hn hvariables]
  · rw [get?_foldl_takeEntry, hclient]
    rfl
  · rw [InPlace.run_apply, ← applyReadWrite, h]
    rfl
  · rw [InPlace.run_apply, ← applyQuality, h]
    rfl

/-- Two clients: one reads a variable and the other one writes it. -/
def pairOps : List (Float × Broker.Op) := [
  (1.0, .connect "A"), (2.0, .connect "B"),
  (3.0, .receive "A" [.double .register "X" 0.0 3.0]),
  (4.0, .receive "B" [{ Message.double .notify "X" 1.0 4.0 with source := "B" }])]

theorem read_readWriteSummary_pairOps :
    let b := Broker.performAll pairOps (Broker.start (.ofCommunity "#1") 0.0)
    let statuses : Table CommsStatus := Table.insert ∅ "A" { name := "A", recent := 2.0 }
    b.readWriteSummary = "A=X&,B=&X" ∧ b.clients.names = ["A", "B"] ∧
      ∃ after, applyReadWrite statuses b.readWriteSummary = .ok after ∧
        ∃ subscribes publishes, b.Lists (fun v => v.isSubscribed "A") subscribes ∧
          b.Lists (fun v => v.writers.contains "A") publishes ∧
          after.get? "A" = some { name := "A", recent := 2.0, subscribes, publishes } := by
  intro b statuses
  obtain ⟨hread, -⟩ := read_readWriteSummary (.ofCommunity "#1") 0.0 pairOps b rfl
    (by decide +kernel) (by decide +kernel)
  obtain ⟨after, hafter, hconnected, -⟩ := hread statuses
  exact ⟨by decide +kernel, by decide +kernel, after, hafter, hconnected "A" (by decide +kernel)⟩

end CommsStatus

end PubSub
