import PubSub.Proofs.Client.Router

/-!
# Routing after any calls

What a router does with a message follows from the calls before: the message goes to the queues that
its key has been routed to, and to those with a pattern that the key matches
(`Router.route_exact`). The marks of checked keys then only save work: starting them over changes
nothing (`Router.route_forgets_checked`).

Both hold as long as no route is taken away from a queue whose pattern the key matches
(`Router.Careful`). Such a route stays away only while the key is marked, and comes back with the
next match (`Router.removed_route_comes_back`).
-/

namespace PubSub.Router

variable {η : Type}

/-- A call of a router, or what its workers do meanwhile. -/
inductive Call (η : Type) where
  | addQueue (name : String) (handler : η)
  | addPatternQueue (name pattern : String) (handler : η)
  | addRoute (key name : String)
  | removeRoute (key name : String)
  | removeQueue (name : String)
  | stopAll
  | route (ms : List Message)
  /-- The workers take mail from their queues or end, in any way. -/
  | work (progress : String → ActiveQueue η → ActiveQueue η) (retired : List (ActiveQueue η))

/-- The router after a call. A call that fails changes nothing. -/
def Call.perform : Call η → Router η → Router η
  | addQueue name handler, r => (r.addQueue? name handler).getD r
  | addPatternQueue name pattern handler, r => (r.addPatternQueue? name pattern handler).getD r
  | addRoute key name, r => (r.addRoute? key name).getD r
  | removeRoute key name, r => (r.removeRoute? key name).getD r
  | removeQueue name, r => (r.removeQueue? name).getD r
  | stopAll, r => r.stopAll
  | route ms, r => (r.route ms).2
  | work progress retired, r => { r with queues := r.queues.map progress, retired }

/-- A new router after calls. -/
def performAll (calls : List (Call η)) : Router η := calls.foldl (fun r c => c.perform r) {}

/-- Letting all workers go on is one of the ways in which they can. -/
theorem run_snd (fails : η → Message → Bool) (r : Router η) :
    (r.run fails).2 = (Call.work (fun _ q => (q.run fails).2) []).perform r := rfl

theorem performAll_concat (calls : List (Call η)) (c : Call η) :
    performAll (calls ++ [c]) = c.perform (performAll calls) := by
  rw [performAll, List.foldl_append]
  rfl

/-! ## What the calls have made -/

/-- Some call has made something that no later call has undone. -/
def Standing (made : List (Call η) → Call η → Prop) (undone : Call η → Prop)
    (calls : List (Call η)) : Prop :=
  ∃ before c after, calls = before ++ c :: after ∧ made before c ∧ ∀ d ∈ after, ¬ undone d

theorem not_standing_nil (made : List (Call η) → Call η → Prop) (undone : Call η → Prop) :
    ¬ Standing made undone [] := by
  rintro ⟨before, c, after, h, -⟩
  simp at h

/-- A call among more calls is the last one, or one of those before. -/
theorem concat_eq_append_cons {calls before after : List (Call η)} {c d : Call η}
    (h : calls ++ [d] = before ++ c :: after) :
    (calls = before ∧ d = c ∧ after = []) ∨
      ∃ after', after = after' ++ [d] ∧ calls = before ++ c :: after' := by
  rcases List.eq_nil_or_concat after with rfl | ⟨after', e, rfl⟩
  · obtain ⟨hcalls, hlast⟩ := List.append_inj' h rfl
    exact .inl ⟨hcalls, List.singleton_inj.1 hlast, rfl⟩
  · have h : calls ++ [d] = (before ++ c :: after') ++ [e] := by simpa using h
    obtain ⟨hcalls, hlast⟩ := List.append_inj' h rfl
    exact .inr ⟨after', by rw [List.singleton_inj.1 hlast, List.concat_eq_append], hcalls⟩

theorem standing_concat {made : List (Call η) → Call η → Prop} {undone : Call η → Prop}
    {calls : List (Call η)} {d : Call η} :
    Standing made undone (calls ++ [d]) ↔
      made calls d ∨ Standing made undone calls ∧ ¬ undone d := by
  constructor
  · rintro ⟨before, c, after, h, hmade, hkept⟩
    rcases concat_eq_append_cons h with ⟨rfl, rfl, -⟩ | ⟨after, rfl, rfl⟩
    · exact .inl hmade
    · exact .inr ⟨⟨before, c, after, rfl, hmade, fun e he => hkept e (by simp [he])⟩,
        hkept d (by simp)⟩
  · rintro (hmade | ⟨⟨before, c, after, rfl, hmade, hkept⟩, hd⟩)
    · exact ⟨calls, d, [], rfl, hmade, List.forall_mem_nil _⟩
    · refine ⟨before, c, after ++ [d], by simp, hmade, fun e he => ?_⟩
      rcases List.mem_append.1 he with he | he
      · exact hkept e he
      · rw [List.mem_singleton.1 he]
        exact hd

/-- A call that removes a queue. -/
def Call.EndsQueue (name : String) : Call η → Prop
  | removeQueue n => n = name
  | stopAll => True
  | _ => False

/-- A call that takes a route away. -/
def Call.EndsRoute (key name : String) : Call η → Prop
  | removeRoute k n => k = key ∧ n = name
  | c => c.EndsQueue name

/-- The key has been routed to the queue since the queue was added, and the route has not been
taken away. -/
def Linked (key name : String) : List (Call η) → Prop :=
  Standing (fun before c => c = .addRoute key name ∧ (performAll before).hasQueue name = true)
    (Call.EndsRoute key name)

/-- The queue has been added with the pattern and is still there. -/
def HasPattern (name pattern : String) : List (Call η) → Prop :=
  Standing (fun before c => (∃ handler, c = .addPatternQueue name pattern handler) ∧
    (performAll before).hasQueue name = false) (Call.EndsQueue name)

/-- No route of the key is taken away from a queue with a pattern that the key matches. -/
def Careful (key : String) (calls : List (Call η)) : Prop :=
  ∀ before name after, calls = before ++ .removeRoute key name :: after →
    (performAll before).matchesQueue key name = false

variable {calls : List (Call η)} {c : Call η} {key name pattern : String}

theorem linked_concat :
    Linked key name (calls ++ [c]) ↔
      (c = .addRoute key name ∧ (performAll calls).hasQueue name = true) ∨
        Linked key name calls ∧ ¬ c.EndsRoute key name :=
  standing_concat

theorem hasPattern_concat :
    HasPattern name pattern (calls ++ [c]) ↔
      ((∃ handler, c = .addPatternQueue name pattern handler) ∧
        (performAll calls).hasQueue name = false) ∨
        HasPattern name pattern calls ∧ ¬ c.EndsQueue name :=
  standing_concat

theorem careful_concat :
    Careful key (calls ++ [c]) ↔ Careful key calls ∧
      ∀ name, c = .removeRoute key name → (performAll calls).matchesQueue key name = false := by
  constructor
  · intro h
    refine ⟨fun before name after heq => ?_, fun name hc => h calls name [] (by rw [hc])⟩
    exact h before name (after ++ [c]) (by simp [heq])
  · rintro ⟨hcalls, hc⟩ before name after heq
    rcases concat_eq_append_cons heq with ⟨rfl, rfl, -⟩ | ⟨after, -, rfl⟩
    · exact hc name rfl
    · exact hcalls before name after rfl

/-- Calls that take no route of the key away. -/
theorem careful_of_not_mem (h : ∀ name, .removeRoute key name ∉ calls) : Careful key calls :=
  fun before name after heq => absurd (heq ▸ by simp) (h name)

/-! ## What the router makes of them -/

/-- A router knows the patterns and, for one key, the routes that the calls have made. -/
structure Follows (key : String) (calls : List (Call η)) (r : Router η) : Prop where
  patterns : ∀ name pattern, (pattern, name) ∈ r.patterns ↔ HasPattern name pattern calls
  named : ∀ name pattern, (pattern, name) ∈ r.patterns → r.hasQueue name = true
  claims : ∀ name, r.claims key name = true ↔
    Linked key name calls ∨ r.matchesQueue key name = true
  queues : ∀ name, r.claims key name = true → r.hasQueue name = true
  settled : r.Settled key

theorem follows_nil (key : String) : Follows key [] (performAll [] : Router η) where
  patterns name pattern := by
    simp [performAll, HasPattern, not_standing_nil]
  named name pattern h := by cases h
  claims name := by
    simp [performAll, claims, isRouted, matchesQueue, Linked, not_standing_nil]
  queues name h := by
    simp [performAll, claims, isRouted, matchesQueue] at h
  settled h := by simp [performAll] at h

variable {r s : Router η}

/-- A call after which all claims and patterns are as before. -/
theorem Follows.same (h : Follows key calls r)
    (hpattern : ∀ name pattern, HasPattern name pattern (calls ++ [c]) ↔
      HasPattern name pattern calls)
    (hlinked : ∀ name, Linked key name (calls ++ [c]) ↔ Linked key name calls)
    (hpatterns : s.patterns = r.patterns) (hclaims : s.claims key = r.claims key)
    (hqueues : ∀ name, r.hasQueue name = true → s.hasQueue name = true)
    (hsettled : r.Settled key → s.Settled key) : Follows key (calls ++ [c]) s where
  patterns name pattern := by rw [hpattern, hpatterns, h.patterns]
  named name pattern hmem := hqueues name (h.named name pattern (hpatterns ▸ hmem))
  claims name := by
    have hmatches : s.matchesQueue key name = r.matchesQueue key name := by
      rw [matchesQueue, hpatterns, matchesQueue]
    rw [hlinked, hclaims, hmatches, h.claims]
  queues name hname := hqueues name (h.queues name (hclaims ▸ hname))
  settled := hsettled h.settled

/-- A call that leaves the router as it is, and that could not have made or ended anything. -/
theorem Follows.unchanged (h : Follows key calls r)
    (hpattern : ∀ name pattern, HasPattern name pattern (calls ++ [c]) ↔
      HasPattern name pattern calls)
    (hlinked : ∀ name, Linked key name (calls ++ [c]) ↔ Linked key name calls) :
    Follows key (calls ++ [c]) r :=
  h.same hpattern hlinked rfl rfl (fun _ => id) id

theorem Follows.kept (h : Follows key calls r) (hkept : r.Kept s)
    (hpattern : ∀ name pattern, HasPattern name pattern (calls ++ [c]) ↔
      HasPattern name pattern calls)
    (hlinked : ∀ name, Linked key name (calls ++ [c]) ↔ Linked key name calls) :
    Follows key (calls ++ [c]) s :=
  h.same hpattern hlinked hkept.patterns (funext (hkept.claims key))
    (fun name hname => (hkept.queues name).trans hname) (hkept.settled key)

theorem follows_addQueue (h : Follows key calls (performAll calls)) (name : String) (handler : η) :
    Follows key (calls ++ [.addQueue name handler])
      (Call.perform (.addQueue name handler) (performAll calls)) := by
  have hpattern (n p : String) : HasPattern n p (calls ++ [.addQueue name handler]) ↔
      HasPattern n p calls := by simp [hasPattern_concat, Call.EndsQueue]
  have hlinked (n : String) : Linked key n (calls ++ [.addQueue name handler]) ↔
      Linked key n calls := by simp [linked_concat, Call.EndsRoute, Call.EndsQueue]
  rw [Call.perform, addQueue?]
  split
  · exact h.unchanged hpattern hlinked
  · refine h.same hpattern hlinked rfl rfl (fun n hn => ?_) id
    rw [Option.getD_some, hasQueue, Table.contains_insert]
    exact Bool.or_eq_true_iff.2 (.inr hn)

theorem follows_addPatternQueue (h : Follows key calls (performAll calls)) (name pattern : String)
    (handler : η) :
    Follows key (calls ++ [.addPatternQueue name pattern handler])
      (Call.perform (.addPatternQueue name pattern handler) (performAll calls)) := by
  have hlinked (n : String) : Linked key n (calls ++ [.addPatternQueue name pattern handler]) ↔
      Linked key n calls := by simp [linked_concat, Call.EndsRoute, Call.EndsQueue]
  rw [Call.perform, addPatternQueue?, addQueue?]
  cases hnew : (performAll calls).hasQueue name with
  | true =>
    refine h.unchanged (fun n p => ?_) hlinked
    rw [hasPattern_concat]
    simp only [Call.EndsQueue, not_false_eq_true, and_true, or_iff_right_iff_imp]
    rintro ⟨⟨_, heq⟩, hn⟩
    cases heq
    simp [hnew] at hn
  | false =>
    have hpattern (n p : String) :
        HasPattern n p (calls ++ [.addPatternQueue name pattern handler]) ↔
          HasPattern n p calls ∨ pattern = p ∧ name = n := by
      rw [hasPattern_concat]
      constructor
      · rintro (⟨⟨_, heq⟩, -⟩ | ⟨hp, -⟩)
        · cases heq
          exact .inr ⟨rfl, rfl⟩
        · exact .inl hp
      · rintro (hp | ⟨rfl, rfl⟩)
        · exact .inr ⟨hp, id⟩
        · exact .inl ⟨⟨handler, rfl⟩, hnew⟩
    have hqueue (n : String) (q : ActiveQueue η) :
        ((performAll calls).queues.insert name q).contains n = true ↔
          n = name ∨ (performAll calls).hasQueue n = true := by
      rw [Table.contains_insert, Bool.or_eq_true, beq_iff_eq, hasQueue]
    have hmatches (n : String) : ((performAll calls).patterns ++ [(pattern, name)]).any
          (fun p => p.2 == n && matchesPattern p.1 key) = true ↔
        (performAll calls).matchesQueue key n = true ∨
          name = n ∧ matchesPattern pattern key = true := by
      simp [matchesQueue]
    simp only [Bool.false_eq_true, if_false, Option.map_some, Option.getD_some]
    refine ⟨fun n p => ?_, fun n p hmem => ?_, fun n => ?_, fun n hn => ?_, fun hchecked => ?_⟩
    · rw [hpattern, List.mem_append, h.patterns, List.mem_singleton, Prod.mk.injEq, eq_comm,
        @eq_comm _ n]
    · refine (hqueue n _).2 ?_
      rcases List.mem_append.1 hmem with hmem | hmem
      · exact .inr (h.named n p hmem)
      · cases List.mem_singleton.1 hmem
        exact .inl rfl
    · rw [hlinked, claims_eq_true_iff, matchesQueue, hmatches, ← or_assoc, ← or_assoc, ← h.claims,
        claims_eq_true_iff]
      rfl
    · refine (hqueue n _).2 ?_
      rw [claims_eq_true_iff, matchesQueue, hmatches, ← or_assoc] at hn
      rcases hn with hn | ⟨rfl, -⟩
      · exact .inr (h.queues n ((claims_eq_true_iff ..).2 hn))
      · exact .inl rfl
    · simp at hchecked

theorem follows_addRoute (h : Follows key calls (performAll calls)) (k name : String) :
    Follows key (calls ++ [.addRoute k name])
      (Call.perform (.addRoute k name) (performAll calls)) := by
  have hpattern (n p : String) : HasPattern n p (calls ++ [.addRoute k name]) ↔
      HasPattern n p calls := by simp [hasPattern_concat, Call.EndsQueue]
  rw [Call.perform]
  cases hname : (performAll calls).hasQueue name with
  | false =>
    rw [addRoute?, if_neg (by simp [hname]), Option.getD_none]
    refine h.unchanged hpattern fun n => ?_
    rw [linked_concat]
    simp only [Call.EndsRoute, Call.EndsQueue, not_false_eq_true, and_true, or_iff_right_iff_imp]
    rintro ⟨heq, hn⟩
    cases heq
    simp [hname] at hn
  | true =>
    obtain ⟨routes, heq, hrouted⟩ := (performAll calls).isRouted_addRoute? k name hname
    have hclaims (n : String) : claims { performAll calls with routes } key n = true ↔
        (key = k ∧ n = name) ∨ (performAll calls).claims key n = true := by
      rw [claims_eq_true_iff, hrouted, claims_eq_true_iff, ← or_assoc, Bool.or_eq_true,
        Bool.and_eq_true, beq_iff_eq, beq_iff_eq]
      rfl
    rw [heq, Option.getD_some]
    refine ⟨fun n p => ?_, h.named, fun n => ?_, fun n hn => ?_, fun hchecked n hn => ?_⟩
    · rw [hpattern, h.patterns]
    · have hlinked : Linked key n (calls ++ [.addRoute k name]) ↔
          (key = k ∧ n = name) ∨ Linked key n calls := by
        rw [linked_concat]
        simp only [Call.addRoute.injEq, Call.EndsRoute, Call.EndsQueue, not_false_eq_true, and_true]
        refine or_congr_left ⟨fun hnew => ⟨hnew.1.1.symm, hnew.1.2.symm⟩, fun hnew => ?_⟩
        exact ⟨⟨hnew.1.symm, hnew.2.symm⟩, hnew.2 ▸ hname⟩
      rw [hclaims, h.claims, hlinked, or_assoc]
      rfl
    · rcases (hclaims n).1 hn with ⟨-, rfl⟩ | hn
      · exact hname
      · exact h.queues n hn
    · rw [hrouted]
      rcases (hclaims n).1 hn with ⟨rfl, rfl⟩ | hn
      · simp
      · simp [h.settled hchecked n hn]

/-- A route that is taken away, from a queue without a pattern that the key matches. -/
theorem follows_removeRoute (h : Follows key calls (performAll calls)) (k name : String)
    (hcareful : k = key → (performAll calls).matchesQueue key name = false) :
    Follows key (calls ++ [.removeRoute k name])
      (Call.perform (.removeRoute k name) (performAll calls)) := by
  have hpattern (n p : String) : HasPattern n p (calls ++ [.removeRoute k name]) ↔
      HasPattern n p calls := by simp [hasPattern_concat, Call.EndsQueue]
  have hlinked (n : String) : Linked key n (calls ++ [.removeRoute k name]) ↔
      Linked key n calls ∧ ¬ (k = key ∧ name = n) := by
    simp [linked_concat, Call.EndsRoute]
  rw [Call.perform]
  cases hrouted : (performAll calls).isRouted k name with
  | false =>
    rw [removeRoute?_eq_none _ _ _ hrouted, Option.getD_none]
    refine h.unchanged hpattern fun n => ?_
    rw [hlinked, and_iff_left_iff_imp]
    rintro hn ⟨rfl, rfl⟩
    have hclaims := (h.claims name).2 (.inl hn)
    rw [claims, hrouted, hcareful rfl] at hclaims
    cases hclaims
  | true =>
    obtain ⟨routes, heq, hleft⟩ := (performAll calls).isRouted_removeRoute? k name hrouted
    have hother {n : String} (hn : ¬ (k = key ∧ name = n)) :
        isRouted { performAll calls with routes } key n = (performAll calls).isRouted key n := by
      rw [hleft]
      rcases Decidable.not_and_iff_not_or_not.1 hn with hk | hn
      · simp [Ne.symm hk]
      · simp [Ne.symm hn]
    have hclaims (n : String) : claims { performAll calls with routes } key n = true ↔
        (performAll calls).claims key n = true ∧ ¬ (k = key ∧ name = n) := by
      by_cases hn : k = key ∧ name = n
      · obtain ⟨rfl, rfl⟩ := hn
        have hgone : claims { performAll calls with routes } k name = false := by
          rw [claims, hleft, beq_self_eq_true, beq_self_eq_true]
          exact hcareful rfl
        simp [hgone]
      · rw [claims, hother hn, and_iff_left hn]
        rfl
    rw [heq, Option.getD_some]
    refine ⟨fun n p => ?_, h.named, fun n => ?_, fun n hn => ?_, fun hchecked n hn => ?_⟩
    · rw [hpattern, h.patterns]
    · rw [hclaims, h.claims, hlinked, or_and_right]
      refine or_congr_right (and_iff_left_of_imp ?_)
      rintro hmatch ⟨hk, rfl⟩
      rw [hcareful hk] at hmatch
      cases hmatch
    · exact h.queues n ((hclaims n).1 hn).1
    · obtain ⟨hn, hne⟩ := (hclaims n).1 hn
      rw [hother hne]
      exact h.settled hchecked n hn

theorem follows_removeQueue (h : Follows key calls (performAll calls)) (name : String) :
    Follows key (calls ++ [.removeQueue name])
      (Call.perform (.removeQueue name) (performAll calls)) := by
  have hpattern (n p : String) : HasPattern n p (calls ++ [.removeQueue name]) ↔
      HasPattern n p calls ∧ name ≠ n := by simp [hasPattern_concat, Call.EndsQueue]
  have hlinked (n : String) : Linked key n (calls ++ [.removeQueue name]) ↔
      Linked key n calls ∧ name ≠ n := by
    simp [linked_concat, Call.EndsRoute, Call.EndsQueue]
  rw [Call.perform]
  cases hname : (performAll calls).hasQueue name with
  | false =>
    rw [removeQueue?_eq_none _ _ hname, Option.getD_none]
    refine h.unchanged (fun n p => ?_) fun n => ?_
    · rw [hpattern, and_iff_left_iff_imp]
      rintro hp rfl
      simp [h.named name p ((h.patterns name p).2 hp)] at hname
    · rw [hlinked, and_iff_left_iff_imp]
      rintro hn rfl
      simp [h.queues name ((h.claims name).2 (.inl hn))] at hname
  | true =>
    obtain ⟨routes, retired, heq, hleft⟩ := (performAll calls).isRouted_removeQueue? name hname
    have hclaims (n : String) : claims { performAll calls with
          queues := (performAll calls).queues.erase name, routes
          patterns := (performAll calls).patterns.filter fun p => p.2 != name, retired } key n =
        (n != name && (performAll calls).claims key n) := by
      rw [claims, claims, Bool.and_or_distrib_left, ← any_patterns_filter, ← hleft]
      rfl
    rw [heq, Option.getD_some]
    refine ⟨fun n p => ?_, fun n p hmem => ?_, fun n => ?_, fun n hn => ?_, fun hchecked n hn => ?_⟩
    · rw [hpattern, ← h.patterns, List.mem_filter, bne_iff_ne, @ne_comm _ n]
    · obtain ⟨hmem, hne⟩ := List.mem_filter.1 hmem
      rw [hasQueue, Table.contains_erase, hne, Bool.true_and]
      exact h.named n p hmem
    · rw [hclaims, hlinked, matchesQueue, any_patterns_filter, Bool.and_eq_true, Bool.and_eq_true,
        h.claims, bne_iff_ne, @ne_comm _ n, @and_comm (Linked key n calls), ← and_or_left]
    · rw [hclaims, Bool.and_eq_true] at hn
      rw [hasQueue, Table.contains_erase, hn.1, Bool.true_and]
      exact h.queues n hn.2
    · rw [hclaims, Bool.and_eq_true] at hn
      refine (hleft key n).trans ?_
      rw [hn.1, h.settled hchecked n hn.2, Bool.and_self]

theorem follows_stopAll (key : String) (calls : List (Call η)) :
    Follows key (calls ++ [.stopAll]) (Call.perform .stopAll (performAll calls)) := by
  refine ⟨fun n p => ?_, fun n p hmem => ?_, fun n => ?_, fun n hn => ?_, fun hchecked => ?_⟩
  · simp [hasPattern_concat, Call.EndsQueue, Call.perform, stopAll]
  · cases hmem
  · simp [linked_concat, Call.EndsRoute, Call.EndsQueue, Call.perform, stopAll, claims, isRouted,
      matchesQueue]
  · simp [Call.perform, stopAll, claims, isRouted, matchesQueue] at hn
  · simp [Call.perform, stopAll] at hchecked

/-- After any calls that are careful with a key, the router knows its routes. -/
theorem follows_performAll (h : Careful key calls) : Follows key calls (performAll calls) := by
  induction calls using List.reverseRecOn with
  | nil => exact follows_nil key
  | append_singleton calls c ih =>
    obtain ⟨hcalls, hc⟩ := careful_concat.1 h
    have hprev := ih hcalls
    rw [performAll_concat]
    cases c with
    | addQueue name handler => exact follows_addQueue hprev name handler
    | addPatternQueue name pattern handler =>
      exact follows_addPatternQueue hprev name pattern handler
    | addRoute k name => exact follows_addRoute hprev k name
    | removeRoute k name => exact follows_removeRoute hprev k name fun hk => hc name (by rw [hk])
    | removeQueue name => exact follows_removeQueue hprev name
    | stopAll => exact follows_stopAll key calls
    | route ms =>
      refine hprev.kept (kept_route _ ms) (fun n p => ?_) fun n => ?_
      · simp [hasPattern_concat, Call.EndsQueue]
      · simp [linked_concat, Call.EndsRoute, Call.EndsQueue]
    | work progress retired =>
      refine hprev.kept (kept_queues _ _ fun n => Table.contains_map ..) (fun n p => ?_) fun n => ?_
      · simp [hasPattern_concat, Call.EndsQueue]
      · simp [linked_concat, Call.EndsRoute, Call.EndsQueue]

/-! ## Routing after the calls -/

/-- The messages of a key are due to a queue: the key is routed to it, or matches its pattern. -/
def Due (key name : String) (calls : List (Call η)) : Prop :=
  Linked key name calls ∨
    ∃ pattern, HasPattern name pattern calls ∧ matchesPattern pattern key = true

theorem Follows.claims_iff (h : Follows key calls r) (name : String) :
    r.claims key name = true ↔ Due key name calls := by
  simp only [h.claims, matchesQueue_eq_true_iff, h.patterns, Due]

/-- Each message goes once, in order, to the queues that it is due to, which all exist, and to no
others. It comes back if none of them has a live worker. -/
theorem route_exact (calls : List (Call η)) (ms : List Message)
    (h : ∀ m ∈ ms, Careful m.key calls) :
    let r := performAll calls
    (∀ m ∈ ms, ∀ name, r.claims m.key name = true ↔ Due m.key name calls) ∧
      (∀ m ∈ ms, ∀ name, r.claims m.key name = true → r.hasQueue name = true) ∧
      (r.route ms).1 = ms.filter (fun m => !r.anyLive (r.claims m.key)) ∧
      (∀ name, (r.route ms).2.queues.get? name = (r.queues.get? name).map fun q =>
        if q.finished then q
        else { q with recent :=
          ((ms.filter fun m => r.claims m.key name).map ActiveQueue.Item.mail).reverse ++
            q.recent }) ∧
      (r.route ms).2.retired = r.retired := by
  intro r
  have hfollows (m : Message) (hm : m ∈ ms) : Follows m.key calls r := follows_performAll (h m hm)
  obtain ⟨routes, checked, heq⟩ := route_eq fun m hm => (hfollows m hm).settled
  refine ⟨fun m hm => (hfollows m hm).claims_iff, fun m hm => (hfollows m hm).queues, ?_, ?_, ?_⟩
  · rw [heq]
  · intro name
    rw [heq, Table.get?_map]
    rfl
  · rw [heq]

/-- Two queues, one of them with a pattern, and a route to the other one that is taken away. -/
def mixedCalls : List (Call Unit) := [
  .addPatternQueue "pattern" "A?" (), .addQueue "plain" (), .addRoute "B1" "plain",
  .addRoute "B2" "plain", .removeRoute "B2" "plain"]

theorem mixedCalls_eq : mixedCalls = mixedCalls.dropLast ++ [.removeRoute "B2" "plain"] := rfl

theorem careful_mixedCalls (key : String) : Careful key mixedCalls := by
  rw [mixedCalls_eq, careful_concat]
  refine ⟨careful_of_not_mem fun name => ?_, ?_⟩
  · simp [mixedCalls]
  · intro name h
    cases h
    decide

theorem route_exact_mixedCalls :
    let r := performAll mixedCalls
    let ms : List Message := [{ key := "A1" }, { key := "B2" }]
    (∀ m ∈ ms, Careful m.key mixedCalls) ∧
      r.claims "A1" "pattern" = true ∧ r.hasQueue "pattern" = true ∧
      r.claims "B2" "plain" = false ∧
      (r.route ms).1 = ms.filter (fun m => !r.anyLive (r.claims m.key)) := by
  intro r ms
  have hcareful (m : Message) (_ : m ∈ ms) : Careful m.key mixedCalls := careful_mixedCalls m.key
  obtain ⟨hclaims, hqueues, hunclaimed, -⟩ := route_exact mixedCalls ms hcareful
  have hdue : Due "A1" "pattern" mixedCalls :=
    .inr ⟨"A?", ⟨[], _, _, rfl, ⟨⟨(), rfl⟩, rfl⟩, by simp [Call.EndsQueue]⟩, by decide⟩
  have hnot : ¬ Due "B2" "plain" mixedCalls := by
    have hfollows : Follows "B2" mixedCalls.dropLast (performAll mixedCalls.dropLast) :=
      follows_performAll (careful_of_not_mem fun name => by simp [mixedCalls])
    have hpatterns : (performAll mixedCalls.dropLast).patterns = [("A?", "pattern")] := rfl
    rintro (h | ⟨p, h, -⟩)
    · rw [mixedCalls_eq, linked_concat] at h
      rcases h with ⟨h, -⟩ | ⟨-, h⟩
      · cases h
      · exact h ⟨rfl, rfl⟩
    · rw [mixedCalls_eq, hasPattern_concat] at h
      rcases h with ⟨⟨_, h⟩, -⟩ | ⟨h, -⟩
      · cases h
      · simpa [hpatterns] using (hfollows.patterns "plain" p).2 h
  have ha := (hclaims { key := "A1" } (by simp [ms]) "pattern").2 hdue
  have hb := mt (hclaims { key := "B2" } (by simp [ms]) "plain").1 hnot
  exact ⟨hcareful, ha, hqueues { key := "A1" } (by simp [ms]) "pattern" ha, by simpa using hb,
    hunclaimed⟩

/-- Starting the marks of checked keys over changes neither what the queues get nor what comes
back. -/
theorem route_forgets_checked (calls : List (Call η)) (ms : List Message)
    (h : ∀ m ∈ ms, Careful m.key calls) :
    let r := performAll calls
    let forgetful := { r with checked := ∅ }
    (forgetful.route ms).1 = (r.route ms).1 ∧
      (forgetful.route ms).2.queues = (r.route ms).2.queues ∧
      (forgetful.route ms).2.retired = (r.route ms).2.retired := by
  intro r forgetful
  have hfollows (m : Message) (hm : m ∈ ms) : Follows m.key calls r := follows_performAll (h m hm)
  have hforgetful (m : Message) : forgetful.Settled m.key := fun hchecked => by
    simp [forgetful] at hchecked
  obtain ⟨routes, checked, heq⟩ := route_eq fun m hm => (hfollows m hm).settled
  obtain ⟨routes', checked', heq'⟩ := route_eq fun m (_ : m ∈ ms) => hforgetful m
  rw [heq, heq']
  exact ⟨rfl, rfl, rfl⟩

theorem route_forgets_checked_mixedCalls :
    let r := performAll mixedCalls
    let ms : List Message := [{ key := "A1" }, { key := "B2" }]
    (∀ m ∈ ms, Careful m.key mixedCalls) ∧
      (route { r with checked := ∅ } ms).1 = (r.route ms).1 := by
  intro r ms
  have hcareful (m : Message) (_ : m ∈ ms) : Careful m.key mixedCalls := careful_mixedCalls m.key
  exact ⟨hcareful, (route_forgets_checked mixedCalls ms hcareful).1⟩

/-- A marked key loses its route to the only queue that claims it, by a pattern. Its messages then
come back, but not if the marks start over. -/
theorem route_removeRoute? {m : Message} (hrouted : r.isRouted m.key name = true)
    (hchecked : r.checked.contains m.key = true) (hmatch : r.matchesQueue m.key name = true)
    (honly : ∀ n, r.claims m.key n = true → n = name)
    (hlive : r.anyLive (r.claims m.key) = true) :
    ∃ s, r.removeRoute? m.key name = some s ∧ (s.route [m]).1 = [m] ∧
      (route { s with checked := ∅ } [m]).1 = [] := by
  obtain ⟨s, hs, hqueues, hgone, hback⟩ := targets_removeRoute? hrouted hchecked hmatch
  have hnone (n : String) : s.targets m.key n = false := by
    rw [hgone]
    cases hn : r.isRouted m.key n with
    | true => simp [honly n ((claims_eq_true_iff ..).2 (.inl hn))]
    | false => simp
  have hlost : s.anyLive (s.targets m.key) = false := by simp [anyLive, hnone]
  have hclaimed : anyLive { s with checked := ∅ } (targets { s with checked := ∅ } m.key) =
      true := by
    rw [funext hback, anyLive, hqueues]
    exact hlive
  have hnonempty : s.queues.entries.isEmpty = false := by
    rw [hqueues]
    cases hempty : r.queues.entries.isEmpty with
    | true => simp [anyLive, List.isEmpty_iff.1 hempty] at hlive
    | false => rfl
  refine ⟨s, hs, ?_, ?_⟩
  · rw [route_singleton s hnonempty, hlost]
    rfl
  · rw [route_singleton { s with checked := ∅ } hnonempty, hclaimed]
    rfl

/-- The key is marked when its route is taken away. -/
theorem removed_route_comes_back :
    let m : Message := { key := "A1" }
    let r := performAll [
      .addPatternQueue "pattern" "A?" (), .route [m], .removeRoute "A1" "pattern"]
    (r.route [m]).1 = [m] ∧ (route { r with checked := ∅ } [m]).1 = [] := by
  intro m
  let calls : List (Call Unit) := [.addPatternQueue "pattern" "A?" ()]
  let added := performAll calls
  let routed := (added.route [m]).2
  have hfollows : Follows "A1" calls added :=
    follows_performAll (careful_of_not_mem fun name => by simp [calls])
  have hpatterns : added.patterns = [("A?", "pattern")] := rfl
  have hroutes : added.routes = ∅ := rfl
  have hclaims (n : String) : added.claims "A1" n = ("pattern" == n) := by
    have hfits : matchesPattern "A?" "A1" = true := by decide
    rw [claims, isRouted, matchesQueue, hroutes, hpatterns]
    simp [hfits]
  have hrouted : routed = { added.matchPatterns "A1" with
      queues := added.queues.map fun n q => if added.targets "A1" n then q.accept [m] else q } :=
    congrArg Prod.snd (route_singleton added rfl m)
  have hkept : added.Kept routed := kept_route added [m]
  have hisRouted : routed.isRouted "A1" "pattern" = true := by
    rw [hrouted]
    refine (isRouted_matchPatterns ..).trans ((if_pos rfl).trans ?_)
    rw [hfollows.settled.targets_eq, hclaims, beq_self_eq_true]
  have hlive : routed.anyLive (routed.claims "A1") = true := by
    rw [funext (hkept.claims "A1"), funext hclaims,
      anyLive_map (r := added) (by rw [hrouted]) (fun n q => by split <;> simp)]
    rfl
  obtain ⟨s, hs, hlost, hback⟩ := route_removeRoute? (m := m) hisRouted
    (by rw [hrouted]; exact contains_checked_matchPatterns added rfl "A1")
    (by rw [matchesQueue, hkept.patterns]; decide)
    (fun n hn => by rw [hkept.claims, hclaims] at hn; exact (beq_iff_eq.1 hn).symm) hlive
  have hr : performAll [.addPatternQueue "pattern" "A?" (), .route [m],
      .removeRoute "A1" "pattern"] = s := by
    have hcalls : [Call.addPatternQueue "pattern" "A?" (), .route [m],
        .removeRoute "A1" "pattern"] =
          calls ++ [.route [m]] ++ [.removeRoute "A1" "pattern"] := rfl
    have hperformed : performAll (calls ++ [.route [m]]) = routed := performAll_concat ..
    rw [hcalls, performAll_concat, hperformed, Call.perform, hs, Option.getD_some]
  rw [hr]
  exact ⟨hlost, hback⟩

end PubSub.Router
