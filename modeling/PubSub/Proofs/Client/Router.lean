import PubSub.Client.Router
import PubSub.Proofs.Table

/-!
# Routes, operation by operation

A key is routed to a queue (`Router.isRouted`), or the queue has a pattern that the key matches; in
both cases the queue claims the messages of the key (`Router.claims`). Routing turns matches into
routes and marks the key as checked; it leaves the claims as they are (`Router.Kept`). A message
goes to the targets of its key (`Router.claim_eq`). These are the queues that claim it as long as a
key that is marked has all its matches among its routes (`Router.Settled`), and then the claims
alone say what routing does (`Router.route_eq`).
-/

namespace PubSub

namespace ActiveQueue

variable {η : Type} (q : ActiveQueue η) (m : Message) (ms ns : List Message)

/-- The queue with more messages waiting, unless its worker has ended. -/
def accept : ActiveQueue η :=
  if q.finished then q else { q with recent := (ms.map Item.mail).reverse ++ q.recent }

theorem push_eq : q.push m = (!q.finished, q.accept [m]) := by
  rw [push, accept]
  by_cases h : q.finished = true
  · simp [h]
  · simp [h]

@[simp] theorem accept_nil : q.accept [] = q := by
  simp [accept]

@[simp] theorem finished_accept : (q.accept ms).finished = q.finished := by
  rw [accept]
  split <;> rfl

theorem accept_accept : (q.accept ms).accept ns = q.accept (ms ++ ns) := by
  by_cases h : q.finished = true
  · simp [accept, h]
  · simp [accept, h]

end ActiveQueue

namespace Router

variable {η : Type} (r : Router η) (key k name n : String)

/-- Whether a key is routed to a queue. -/
def isRouted : Bool := (r.routes[key]?).any fun names => names.contains name

/-- Whether a queue has a pattern that a key matches. -/
def matchesQueue : Bool := r.patterns.any fun p => p.2 == name && matchesPattern p.1 key

/-- Whether a queue claims the messages of a key: the key is routed to it, or matches its
pattern. -/
def claims : Bool := r.isRouted key name || r.matchesQueue key name

/-- Whether the messages of a key go to a queue. Those of a key that is marked as checked only go
where the key is routed. -/
def targets : Bool :=
  if r.checked.contains key then r.isRouted key name else r.claims key name

/-- If a key is marked as checked, all queues with patterns that it matches are among its routes. -/
def Settled : Prop :=
  r.checked.contains key = true → ∀ name, r.claims key name = true → r.isRouted key name = true

/-- Whether one of the queues whose names pass a test has a live worker. -/
def anyLive (p : String → Bool) : Bool := r.queues.entries.any fun e => p e.1 && !e.2.finished

theorem matchesQueue_eq_true_iff :
    r.matchesQueue key name = true ↔
      ∃ pattern, (pattern, name) ∈ r.patterns ∧ matchesPattern pattern key = true := by
  simp only [matchesQueue, List.any_eq_true, Bool.and_eq_true, beq_iff_eq]
  constructor
  · rintro ⟨⟨pattern, n⟩, hmem, rfl, hmatch⟩
    exact ⟨pattern, hmem, hmatch⟩
  · rintro ⟨pattern, hmem, hmatch⟩
    exact ⟨_, hmem, rfl, hmatch⟩

theorem claims_eq_true_iff :
    r.claims key name = true ↔ r.isRouted key name = true ∨ r.matchesQueue key name = true :=
  Bool.or_eq_true_iff

/-! ## Routes -/

theorem any_linked (routes : Std.HashMap String NameSet) :
    ((linked routes key name)[k]?).any (fun names => names.contains n) =
      ((k == key && n == name) || (routes[k]?).any fun names => names.contains n) := by
  rw [linked, Std.HashMap.getElem?_insert]
  by_cases hk : key = k
  · subst hk
    cases routes[key]? <;> simp [NameSet.add, Table.contains_insert]
  · simp [hk, Ne.symm hk]

theorem isRouted_addRoute? (h : r.hasQueue name = true) :
    ∃ routes, r.addRoute? key name = some { r with routes } ∧
      ∀ k n, isRouted { r with routes } k n = (k == key && n == name || r.isRouted k n) := by
  refine ⟨linked r.routes key name, if_pos h, fun k n => ?_⟩
  exact any_linked key k name n r.routes

/-- A route that there is not is not taken away. -/
theorem removeRoute?_eq_none (h : r.isRouted key name = false) :
    r.removeRoute? key name = none := by
  rw [isRouted] at h
  rw [removeRoute?]
  cases hnames : r.routes[key]? with
  | none => rfl
  | some names =>
    have hnot : names.contains name = false := by simpa [hnames] using h
    simp [hnot]

theorem isRouted_removeRoute? (h : r.isRouted key name = true) :
    ∃ routes, r.removeRoute? key name = some { r with routes } ∧
      ∀ k n, isRouted { r with routes } k n = (!(k == key && n == name) && r.isRouted k n) := by
  obtain ⟨names, hnames, hname⟩ := (Option.any_eq_true ..).1 h
  refine ⟨_, by rw [removeRoute?, hnames, Option.bind_some, if_pos hname], fun k n => ?_⟩
  have hleft : (names.erase name).contains n = (n != name && names.contains n) :=
    names.contains_erase name n
  by_cases hk : key = k
  · subst hk
    simp only [isRouted]
    split
    · rename_i hempty
      rw [Table.contains_of_isEmpty hempty] at hleft
      simp only [Std.HashMap.getElem?_erase, beq_self_eq_true, if_true, hnames, Option.any_none,
        Option.any_some, Bool.true_and]
      exact hleft
    · simp only [Std.HashMap.getElem?_insert, beq_self_eq_true, if_true, hnames, Option.any_some,
        Bool.true_and]
      exact hleft
  · simp only [isRouted]
    split <;> simp [Std.HashMap.getElem?_erase, Std.HashMap.getElem?_insert, hk, Ne.symm hk]

theorem removeQueue?_eq_none (h : r.hasQueue name = false) : r.removeQueue? name = none := by
  rw [hasQueue, Table.contains, Option.isSome_eq_false_iff, Option.isNone_iff_eq_none] at h
  rw [removeQueue?, h, Option.map_none]

theorem isRouted_removeQueue? (h : r.hasQueue name = true) :
    ∃ routes retired, r.removeQueue? name = some { r with
        queues := r.queues.erase name, routes,
        patterns := r.patterns.filter fun p => p.2 != name, retired } ∧
      ∀ k n, isRouted { r with routes } k n = (n != name && r.isRouted k n) := by
  obtain ⟨q, hq⟩ := Table.contains_eq_true_iff.1 h
  refine ⟨_, _, by rw [removeQueue?, hq, Option.map_some], fun k n => ?_⟩
  simp only [isRouted, Std.HashMap.getElem?_filter, Std.HashMap.getElem?_map]
  cases r.routes[k]? with
  | none => simp
  | some names =>
    have hleft : (names.erase name).contains n = (n != name && names.contains n) :=
      names.contains_erase name n
    by_cases hempty : (names.erase name).entries.isEmpty = true
    · rw [Table.contains_of_isEmpty hempty] at hleft
      simp [hempty, ← hleft]
    · simp [hempty, hleft]

/-- The patterns of the other queues. -/
theorem any_patterns_filter :
    (r.patterns.filter fun p => p.2 != name).any (fun p => p.2 == n && matchesPattern p.1 key) =
      (n != name && r.matchesQueue key n) := by
  rw [List.any_filter, matchesQueue]
  by_cases hn : n = name
  · subst hn
    rw [bne_self_eq_false, Bool.false_and, List.any_eq_false]
    rintro p -
    cases hp : p.2 == n <;> simp [bne, hp]
  · rw [bne_iff_ne.2 hn, Bool.true_and]
    refine List.any_congr rfl fun p => ?_
    by_cases hp : p.2 = n
    · simp [hp, hn]
    · simp [hp]

/-! ## Matching patterns -/

/-- A router in which every queue claims the same messages as before. -/
structure Kept (r s : Router η) : Prop where
  queues : ∀ name, s.hasQueue name = r.hasQueue name
  patterns : s.patterns = r.patterns
  claims : ∀ key name, s.claims key name = r.claims key name
  settled : ∀ key, r.Settled key → s.Settled key

variable {r} {s t : Router η} {key k name n}

theorem Kept.refl (r : Router η) : r.Kept r := ⟨fun _ => rfl, rfl, fun _ _ => rfl, fun _ h => h⟩

theorem Kept.trans (h : r.Kept s) (h' : s.Kept t) : r.Kept t where
  queues name := (h'.queues name).trans (h.queues name)
  patterns := h'.patterns.trans h.patterns
  claims key name := (h'.claims key name).trans (h.claims key name)
  settled key hr := h'.settled key (h.settled key hr)

/-- A router with other queues of the same names. -/
theorem kept_queues (queues : Table (ActiveQueue η)) (retired : List (ActiveQueue η))
    (h : ∀ name, queues.contains name = r.queues.contains name) :
    r.Kept { r with queues, retired } :=
  ⟨h, rfl, fun _ _ => rfl, fun _ hr => hr⟩

theorem any_foldl_linked (found : List (String × String)) (routes : Std.HashMap String NameSet) :
    ((found.foldl (fun routes p => linked routes key p.2) routes)[k]?).any
        (fun names => names.contains n) =
      (k == key && found.any (fun p => p.2 == n) ||
        (routes[k]?).any fun names => names.contains n) := by
  induction found generalizing routes with
  | nil => simp
  | cons p found ih =>
    rw [List.foldl_cons, ih, any_linked, List.any_cons, Bool.beq_comm (a := n)]
    cases k == key <;> cases p.2 == n <;> simp

/-- Matching makes the queues that the messages of a key go to its routes. -/
theorem isRouted_matchPatterns (r : Router η) (key k name : String) :
    (r.matchPatterns key).isRouted k name =
      if k = key then r.targets key name else r.isRouted k name := by
  rw [matchPatterns]
  by_cases hempty : r.patterns.isEmpty = true
  · have hnone : r.claims key name = r.isRouted key name := by
      simp [claims, matchesQueue, List.isEmpty_iff.1 hempty]
    by_cases hk : k = key
    · simp [hempty, targets, hnone, hk]
    · simp [hempty, hk]
  · by_cases hchecked : r.checked.contains key = true
    · by_cases hk : k = key
      · simp [targets, hchecked, hk]
      · simp [hchecked, hk]
    · have hmatch : (r.patterns.filter fun p => matchesPattern p.1 key).any (fun p => p.2 == name) =
          r.matchesQueue key name := by
        simp [matchesQueue, List.any_filter, Bool.and_comm]
      simp only [hempty, hchecked, Bool.or_self, Bool.false_eq_true, if_false, isRouted,
        any_foldl_linked, hmatch]
      by_cases hk : k = key
      · simp [hk, targets, hchecked, claims, isRouted, Bool.or_comm]
      · simp [hk]

/-- The routes of other keys stay, though their marks may go. -/
theorem checked_matchPatterns (h : (r.matchPatterns key).checked.contains k = true) :
    k = key ∨ r.checked.contains k = true := by
  rw [matchPatterns] at h
  split at h
  · exact .inr h
  · rw [Std.HashSet.contains_insert, Bool.or_eq_true, beq_iff_eq] at h
    refine h.imp Eq.symm fun h => ?_
    split at h
    · simp at h
    · exact h

theorem matchPatterns_eq (r : Router η) (key : String) :
    ∃ routes checked, r.matchPatterns key = { r with routes, checked } := by
  rw [matchPatterns]
  split
  · exact ⟨r.routes, r.checked, rfl⟩
  · exact ⟨_, _, rfl⟩

/-- With patterns, a key that has been matched is marked. -/
theorem contains_checked_matchPatterns (r : Router η) (h : r.patterns.isEmpty = false)
    (key : String) : (r.matchPatterns key).checked.contains key = true := by
  rw [matchPatterns, h, Bool.false_or]
  split
  · assumption
  · exact Std.HashSet.contains_insert_self

theorem targets_or_matchesQueue (r : Router η) (key name : String) :
    (r.targets key name || r.matchesQueue key name) = r.claims key name := by
  rw [targets, claims]
  split
  · rfl
  · rw [Bool.or_assoc, Bool.or_self]

theorem claims_matchPatterns (r : Router η) (key k name : String) :
    (r.matchPatterns key).claims k name = r.claims k name := by
  obtain ⟨routes, checked, heq⟩ := matchPatterns_eq r key
  have hmatch : (r.matchPatterns key).matchesQueue k name = r.matchesQueue k name := by
    rw [heq]
    rfl
  rw [claims, hmatch, isRouted_matchPatterns]
  split
  · rename_i hk
    rw [hk, targets_or_matchesQueue]
  · rfl

theorem Settled.targets_eq (h : r.Settled key) (name : String) :
    r.targets key name = r.claims key name := by
  rw [targets]
  split
  · rename_i hchecked
    cases hclaims : r.claims key name with
    | true => exact h hchecked name hclaims
    | false => exact (Bool.or_eq_false_iff.1 hclaims).1
  · rfl

theorem kept_matchPatterns (r : Router η) (key : String) : r.Kept (r.matchPatterns key) where
  queues name := by
    obtain ⟨routes, checked, heq⟩ := matchPatterns_eq r key
    rw [heq]
    rfl
  patterns := by
    obtain ⟨routes, checked, heq⟩ := matchPatterns_eq r key
    rw [heq]
  claims := claims_matchPatterns r key
  settled k hk := by
    intro hchecked name hclaims
    rw [claims_matchPatterns] at hclaims
    rw [isRouted_matchPatterns]
    by_cases hkey : k = key
    · subst hkey
      rw [if_pos rfl, hk.targets_eq, hclaims]
    · rw [if_neg hkey]
      -- another key is not newly marked
      exact hk ((checked_matchPatterns hchecked).resolve_left hkey) name hclaims

/-- A route of a marked key that is taken away from a queue whose pattern the key matches. It is
gone until the marks start over. -/
theorem targets_removeRoute? (hrouted : r.isRouted key name = true)
    (hchecked : r.checked.contains key = true) (hmatch : r.matchesQueue key name = true) :
    ∃ s, r.removeRoute? key name = some s ∧ s.queues = r.queues ∧
      (∀ n, s.targets key n = (n != name && r.isRouted key n)) ∧
      ∀ n, targets { s with checked := ∅ } key n = r.claims key n := by
  obtain ⟨routes, heq, hleft⟩ := isRouted_removeRoute? r key name hrouted
  have hrest (n : String) :
      isRouted { r with routes } key n = (n != name && r.isRouted key n) := by
    rw [hleft, beq_self_eq_true, Bool.true_and, bne]
  refine ⟨_, heq, rfl, fun n => ?_, fun n => ?_⟩
  · rw [targets, if_pos hchecked, hrest]
  · have hclaims : claims { r with routes, checked := ∅ } key n =
        ((n != name && r.isRouted key n) || r.matchesQueue key n) := by
      rw [← hrest]
      rfl
    rw [targets, if_neg (by simp), hclaims, claims]
    by_cases hn : n = name
    · rw [hn, hmatch, Bool.or_true, Bool.or_true]
    · rw [bne_iff_ne.2 hn, Bool.true_and]

/-! ## Pushing to queues -/

theorem pushTo_eq (r : Router η) (name : String) (m : Message) :
    r.pushTo name m = ((r.queues.get? name).any fun q => !q.finished,
      { r with queues := r.queues.modify name fun q => q.accept [m] }) := by
  rw [pushTo]
  cases hq : r.queues.get? name with
  | none =>
    have hsame : r.queues.modify name (fun q => q.accept [m]) = r.queues := by
      refine Table.ext_get? fun n => ?_
      rw [Table.get?_modify]
      by_cases hn : n = name
      · simp [hn, hq]
      · simp [hn]
    simp [hsame]
  | some q =>
    have hsame : r.queues.modify name (fun q => q.accept [m]) =
        r.queues.insert name (q.accept [m]) := by
      refine Table.ext_get? fun n => ?_
      rw [Table.get?_modify, Table.get?_insert]
      by_cases hn : n = name
      · simp [hn, hq]
      · simp [hn]
    simp [ActiveQueue.push_eq, hsame]

/-- Pushing to queues of different names. -/
theorem pushToAll_eq (r : Router η) (m : Message) {names : List String} (h : names.Nodup) :
    r.pushToAll m names = (names.any fun n => (r.queues.get? n).any fun q => !q.finished,
      { r with queues := r.queues.map fun n q => if n ∈ names then q.accept [m] else q }) := by
  induction names generalizing r with
  | nil =>
    have hsame : (r.queues.map fun _ q => q) = r.queues :=
      Table.ext_get? fun n => by rw [Table.get?_map, Option.map_id']
    simp [pushToAll, hsame]
  | cons name names ih =>
    obtain ⟨hname, hnames⟩ := List.nodup_cons.1 h
    have hothers : (names.any fun n => ((r.queues.modify name fun q => q.accept [m]).get? n).any
        fun q => !q.finished) = names.any fun n => (r.queues.get? n).any fun q => !q.finished := by
      refine List.any_congr rfl fun n => ?_
      rw [Table.get?_modify]
      split
      · cases r.queues.get? n <;> simp
      · rfl
    have hqueues : (r.queues.modify name fun q => q.accept [m]).map
          (fun n q => if n ∈ names then q.accept [m] else q) =
        r.queues.map fun n q => if n ∈ name :: names then q.accept [m] else q := by
      refine Table.ext_get? fun n => ?_
      rw [Table.get?_map, Table.get?_modify, Table.get?_map]
      by_cases hn : n = name
      · subst hn
        simp [hname, Function.comp_def]
      · simp [hn]
    simp only [pushToAll, pushTo_eq, ih _ hnames, hothers, hqueues, List.any_cons]

/-! ## Routing -/

theorem anyLive_eq_true_iff {p : String → Bool} :
    r.anyLive p = true ↔ ∃ name q, r.queues.get? name = some q ∧ p name = true ∧
      q.finished = false := by
  simp only [anyLive, List.any_eq_true, Prod.exists, Table.mem_entries_iff, Bool.and_eq_true,
    Bool.not_eq_true']

/-- What waits in the queues makes no difference to who is live. -/
theorem anyLive_map {f : String → ActiveQueue η → ActiveQueue η}
    (hqueues : s.queues = r.queues.map f) (hf : ∀ n q, (f n q).finished = q.finished)
    (p : String → Bool) : s.anyLive p = r.anyLive p := by
  rw [anyLive, hqueues, Table.map, List.any_map, anyLive]
  simp only [Function.comp_def, hf]

/-- A message goes to its targets, and is claimed if one of them is live. -/
theorem claim_eq (r : Router η) (m : Message) :
    r.claim m = (r.anyLive (r.targets m.key), { r.matchPatterns m.key with
      queues := r.queues.map fun n q => if r.targets m.key n then q.accept [m] else q }) := by
  have hrouted (n : String) : (r.matchPatterns m.key).isRouted m.key n = r.targets m.key n :=
    (isRouted_matchPatterns ..).trans (if_pos rfl)
  have hqueues : (r.matchPatterns m.key).queues = r.queues := by
    obtain ⟨routes, checked, heq⟩ := matchPatterns_eq r m.key
    rw [heq]
  rw [claim]
  cases hroutes : (r.matchPatterns m.key).routes[m.key]? with
  | none =>
    have hnone (n : String) : r.targets m.key n = false := by
      rw [← hrouted, isRouted, hroutes, Option.any_none]
    have hsame : (r.queues.map fun _ q => q) = (r.matchPatterns m.key).queues := by
      rw [Table.map_id, hqueues]
    simp [anyLive, hnone, hsame]
  | some names =>
    have hmem (n : String) : n ∈ names.names ↔ r.targets m.key n = true := by
      rw [← hrouted, isRouted, hroutes, Option.any_some, Table.mem_names_iff]
    have hlive : (names.names.any fun n => (r.queues.get? n).any fun q => !q.finished) =
        r.anyLive (r.targets m.key) := by
      rw [Bool.eq_iff_iff, anyLive_eq_true_iff]
      simp only [List.any_eq_true, hmem, Option.any_eq_true, Bool.not_eq_true']
      constructor
      · rintro ⟨n, hn, q, hq, hlive⟩
        exact ⟨n, q, hq, hn, hlive⟩
      · rintro ⟨n, q, hq, hn, hlive⟩
        exact ⟨n, hn, q, hq, hlive⟩
    simp only [pushToAll_eq _ m names.nodup_names, hqueues, hlive, hmem]

theorem route_singleton (r : Router η) (h : r.queues.entries.isEmpty = false) (m : Message) :
    r.route [m] = (if r.anyLive (r.targets m.key) then [] else [m], { r.matchPatterns m.key with
      queues := r.queues.map fun n q => if r.targets m.key n then q.accept [m] else q }) := by
  simp only [route, h, Bool.false_eq_true, if_false, claimAll, claim_eq]

theorem kept_claim (r : Router η) (m : Message) : r.Kept (r.claim m).2 := by
  refine (kept_matchPatterns r m.key).trans ?_
  obtain ⟨routes, checked, heq⟩ := matchPatterns_eq r m.key
  rw [claim_eq, heq]
  exact kept_queues _ _ fun name => Table.contains_map ..

theorem kept_claimAll (r : Router η) (ms : List Message) : r.Kept (r.claimAll ms).2 := by
  induction ms generalizing r with
  | nil => exact .refl r
  | cons m ms ih => exact (kept_claim r m).trans (ih (r.claim m).2)

/-- Routing leaves all claims as they are. -/
theorem kept_route (r : Router η) (ms : List Message) : r.Kept (r.route ms).2 := by
  rw [route]
  split
  · exact .refl r
  · exact kept_claimAll r ms

/-- Handing out messages in order: those that no live queue claims come back, and every queue gets
those that it claims. -/
theorem claimAll_eq {ms : List Message} (h : ∀ m ∈ ms, r.Settled m.key) :
    ∃ routes checked, r.claimAll ms = (ms.filter fun m => !r.anyLive (r.claims m.key), { r with
      queues := r.queues.map fun n q => q.accept (ms.filter fun m => r.claims m.key n)
      routes, checked }) := by
  induction ms generalizing r with
  | nil => exact ⟨r.routes, r.checked, by simp [claimAll]⟩
  | cons m ms ih =>
    obtain ⟨hm, hms⟩ := List.forall_mem_cons.1 h
    have hkept := kept_claim r m
    have hclaim : r.claim m = (r.anyLive (r.claims m.key), { r.matchPatterns m.key with
        queues := r.queues.map fun n q => if r.claims m.key n then q.accept [m] else q }) := by
      rw [claim_eq, funext hm.targets_eq]
    obtain ⟨routes, checked, hrest⟩ := ih fun n hn => hkept.settled n.key (hms n hn)
    have hqueues : (r.claim m).2.queues =
        r.queues.map fun n q => if r.claims m.key n then q.accept [m] else q := by rw [hclaim]
    have hlive (key : String) :
        (r.claim m).2.anyLive ((r.claim m).2.claims key) = r.anyLive (r.claims key) := by
      rw [funext (hkept.claims key)]
      exact anyLive_map hqueues (fun n q => by split <;> simp) _
    have hmap : ((r.claim m).2.queues.map fun n q =>
          q.accept (ms.filter fun m' => (r.claim m).2.claims m'.key n)) =
        r.queues.map fun n q => q.accept ((m :: ms).filter fun m' => r.claims m'.key n) := by
      rw [hqueues, Table.map_map]
      simp only [hkept.claims]
      refine Table.map_congr fun n q => ?_
      by_cases hn : r.claims m.key n = true
      · simp [hn, ActiveQueue.accept_accept]
      · simp [hn]
    have hothers : ∃ routes checked, (r.claim m).2 =
        { r with queues := (r.claim m).2.queues, routes, checked } := by
      obtain ⟨routes, checked, heq⟩ := matchPatterns_eq r m.key
      rw [hclaim, heq]
      exact ⟨_, _, rfl⟩
    obtain ⟨_, _, hothers⟩ := hothers
    refine ⟨routes, checked, ?_⟩
    rw [claimAll]
    simp only [hrest, hmap, hlive, List.filter_cons]
    rw [hothers]
    simp only [hclaim]
    cases r.anyLive (r.claims m.key) <;> rfl

/-- The same for a router that may be without queues. -/
theorem route_eq {ms : List Message} (h : ∀ m ∈ ms, r.Settled m.key) :
    ∃ routes checked, r.route ms = (ms.filter fun m => !r.anyLive (r.claims m.key), { r with
      queues := r.queues.map fun n q => q.accept (ms.filter fun m => r.claims m.key n)
      routes, checked }) := by
  rw [route]
  split
  · rename_i hempty
    have hnil : r.queues.entries = [] := List.isEmpty_iff.1 hempty
    have hnone (p : String → Bool) : r.anyLive p = false := by simp [anyLive, hnil]
    exact ⟨r.routes, r.checked, by simp [hnone, Table.map_of_isEmpty hempty]⟩
  · exact claimAll_eq h

end Router

end PubSub
