import Mathlib
import PubSub.Client.Mailbox

/-!
# What becomes of the messages of a mailbox

As long as all pushes go to the same end of a mailbox (`Mailbox.End`), its messages stand in the
order in which they were pushed: oldest first, or newest first if they are pushed to the front
(`End.oldestFirst`).

Whatever else is done with the mailbox, each message that has been pushed is in exactly one place.
Either it is still queued, or there is one turn at which it has left: it has been taken, cleared
away, or dropped by a later push (`Mailbox.exists_accounts`). How many a push drops is counted from
the limit that has been set last (`Mailbox.limitAfter`). The messages are numbered as they are
pushed, as two of them may be the same.
-/

namespace PubSub.Mailbox

/-- The end of a mailbox to which messages are pushed. -/
inductive End where
  | back
  | front

/-- What stands in a mailbox from front to back, from the oldest to the newest. -/
def End.oldestFirst {α : Type} : End → List α → List α
  | .back, xs => xs
  | .front, xs => xs.reverse

/-- Pushes a message to an end. -/
def push (e : End) (b : Mailbox) (m : Message) : Option Error × Mailbox :=
  match e with
  | .back => b.pushBack m
  | .front => b.pushFront m

/-- Something that is done with a mailbox. -/
inductive Op where
  | push (m : Message)
  | setLimit (limit : Nat)
  | extract (p : Message → Bool)
  | drain
  | clear

/-- The mailbox after an operation. All pushes go to the same end. -/
def Op.perform (e : End) : Op → Mailbox → Mailbox
  | push m, b => (b.push e m).2
  | setLimit limit, b => b.withLimit limit
  | extract p, b => (b.extract p).2
  | drain, b => b.drain.2
  | clear, b => b.clear

/-- The mailbox after operations. -/
def performAll (e : End) (ops : List Op) (b : Mailbox) : Mailbox :=
  ops.foldl (fun b op => op.perform e b) b

/-- The message that an operation pushes. -/
def Op.pushed? : Op → Option Message
  | push m => some m
  | setLimit _ | extract _ | drain | clear => none

/-- The limit that an operation sets. -/
def Op.limit? : Op → Option Nat
  | setLimit limit => some limit
  | push _ | extract _ | drain | clear => none

/-- The limit after operations on a new mailbox: the one set last, or else the first one. A limit of
0 counts as 1. -/
def limitAfter (limit : Nat) (ops : List Op) : Nat :=
  max ((ops.filterMap Op.limit?).getLast?.getD limit) 1

/-- The messages pushed by operations, each with its number. -/
def numbered (ops : List Op) : List (Message × Nat) := (ops.filterMap Op.pushed?).zipIdx

section
variable (left : Nat → Option Nat)

/-- The messages that wait after operations, if `left` says at which turn a message leaves: those
that have not left at an earlier one. -/
def waiting (before : List Op) : List (Message × Nat) :=
  (numbered before).filter fun x => (left x.2).all (before.length ≤ ·)

/-- The messages that leave at the turn after operations. -/
def leaving (before : List Op) : List (Message × Nat) :=
  (numbered before).filter fun x => left x.2 = some before.length

end

/-- What an operation does with the messages that wait in a mailbox of this name and limit, oldest
first, and what it tells of those that leave. -/
def Op.Removes (e : End) (name : String) (limit : Nat) (b : Mailbox)
    (waiting leaving : List (Message × Nat)) : Op → Prop
  /- The oldest messages are dropped and counted, and the new one is the newest. -/
  | .push m =>
    (∃ rest, waiting = leaving ++ rest ∧
      e.oldestFirst (b.push e m).2.messages = rest.map (·.1) ++ [m]) ∧
    (b.push e m).2.messages.length = min b.messages.length (limit - 1) + 1 ∧
    (b.push e m).1 =
      if leaving = [] then none else some (.mailboxOverflow name leaving.length)
  | .setLimit _ => leaving = []
  | .extract p =>
    leaving = waiting.filter (p ·.1) ∧ e.oldestFirst (b.extract p).1 = leaving.map (·.1)
  | .drain => leaving = waiting ∧ e.oldestFirst b.drain.1 = leaving.map (·.1)
  | .clear => leaving = waiting

/-- `left` says of every message pushed by operations on a new mailbox at which turn it leaves. A
message for which it says nothing is still queued. -/
structure Accounts (e : End) (name : String) (limit : Nat) (ops : List Op)
    (left : Nat → Option Nat) : Prop where
  limits : ∀ before, before <+: ops →
    (performAll e before (create name limit)).limit = limitAfter limit before
  /-- At any time the messages that have been pushed and have not left are queued. -/
  queued : ∀ before, before <+: ops →
    e.oldestFirst (performAll e before (create name limit)).messages =
      (waiting left before).map (·.1)
  turns : ∀ before op after, ops = before ++ op :: after →
    op.Removes e name (limitAfter limit before) (performAll e before (create name limit))
      (waiting left before) (leaving left before)
  /-- A message leaves at the turn of an operation, after it has been pushed. -/
  inTurn : ∀ i t, left i = some t → ∃ before op after, ops = before ++ op :: after ∧
    before.length = t ∧ i < (numbered before).length

/-! ## The order of a mailbox -/

section
variable {α : Type} (e : End)

theorem End.oldestFirst_filter (p : α → Bool) (xs : List α) :
    e.oldestFirst (xs.filter p) = (e.oldestFirst xs).filter p := by
  cases e with
  | back => rfl
  | front => exact List.filter_reverse.symm

theorem End.oldestFirst_filterMap {β : Type} (f : α → Option β) (xs : List α) :
    (e.oldestFirst xs).filterMap f = e.oldestFirst (xs.filterMap f) := by
  cases e with
  | back => rfl
  | front => exact List.filterMap_reverse

theorem End.oldestFirst_oldestFirst (xs : List α) : e.oldestFirst (e.oldestFirst xs) = xs := by
  cases e with
  | back => rfl
  | front => exact List.reverse_reverse xs

@[simp] theorem End.oldestFirst_nil : e.oldestFirst ([] : List α) = [] := by
  cases e <;> rfl

@[simp] theorem End.length_oldestFirst (xs : List α) :
    (e.oldestFirst xs).length = xs.length := by
  cases e with
  | back => rfl
  | front => exact List.length_reverse

@[simp] theorem End.mem_oldestFirst {x : α} {xs : List α} : x ∈ e.oldestFirst xs ↔ x ∈ xs := by
  cases e with
  | back => rfl
  | front => exact List.mem_reverse

end

section
variable (e : End) (b : Mailbox) (m : Message)

theorem push_fst : (b.push e m).1 = b.overflow? := by
  cases e <;> rfl

theorem length_push :
    (b.push e m).2.messages.length = min b.messages.length (b.limit - 1) + 1 := by
  cases e with
  | back => exact length_pushBack b m
  | front => exact length_pushFront b m

/-- A push drops the oldest messages. -/
theorem oldestFirst_push : e.oldestFirst (b.push e m).2.messages =
    (e.oldestFirst b.messages).drop b.excess ++ [m] := by
  cases e with
  | back => rfl
  | front =>
    show (m :: b.messages.take (b.messages.length - b.excess)).reverse = _
    rw [List.reverse_cons, End.oldestFirst, List.drop_reverse]

theorem excess_le : b.excess ≤ b.messages.length := by
  have := b.limit_pos
  rw [excess]
  omega

end

/-! ## One turn -/

section
variable {α : Type} [BEq α] [LawfulBEq α] {xs ys : List α}

/-- The elements of a list that are in a part of it are that part. -/
theorem filter_mem_of_sublist (hsub : xs.Sublist ys) (hnodup : ys.Nodup) :
    ys.filter (· ∈ xs) = xs := by
  induction hsub with
  | slnil => rfl
  | @cons xs ys y hsub ih =>
    obtain ⟨hy, hnodup⟩ := List.nodup_cons.1 hnodup
    have hnot : y ∉ xs := fun h => hy (hsub.subset h)
    rw [List.filter_cons_of_neg (by simpa using hnot), ih hnodup]
  | @cons_cons xs ys y hsub ih =>
    obtain ⟨hy, hnodup⟩ := List.nodup_cons.1 hnodup
    rw [List.filter_cons_of_pos (by simp)]
    congr 1
    rw [← ih hnodup]
    refine List.filter_congr fun x hx => ?_
    have hne : x ≠ y := fun h => hy (h ▸ hx)
    simp [hne, ih hnodup]

theorem filter_not_mem_take (hnodup : xs.Nodup) (n : Nat) :
    xs.filter (· ∉ xs.take n) = xs.drop n := by
  have hdisjoint : ∀ x ∈ xs.drop n, x ∉ xs.take n := fun x hdrop htake =>
    List.disjoint_take_drop hnodup le_rfl htake hdrop
  conv_lhs => rw [← List.take_append_drop n xs]
  rw [List.filter_append, List.take_append_drop, List.filter_eq_nil_iff.2 (by simp),
    List.filter_eq_self.2 (by simpa using hdisjoint), List.nil_append]

end

/-- The messages that leave, of those that wait. -/
def Op.leavers (b : Mailbox) (waiting : List (Message × Nat)) : Op → List (Message × Nat)
  | .push _ => waiting.take b.excess
  | .setLimit _ => []
  | .extract p => waiting.filter (p ·.1)
  | .drain | .clear => waiting

theorem Op.leavers_sublist (b : Mailbox) (waiting : List (Message × Nat)) (op : Op) :
    (op.leavers b waiting).Sublist waiting := by
  cases op with
  | push m => exact List.take_sublist ..
  | setLimit limit => exact List.nil_sublist _
  | extract p => exact List.filter_sublist
  | drain | clear => exact List.Sublist.refl _

section
variable {e : End} {b : Mailbox} {waiting : List (Message × Nat)}
  (hqueued : e.oldestFirst b.messages = waiting.map (·.1))
include hqueued

theorem removes_leavers (op : Op) :
    op.Removes e b.name b.limit b waiting (op.leavers b waiting) := by
  cases op with
  | push m =>
    have hlength : waiting.length = b.messages.length := by
      rw [← List.length_map (·.1), ← hqueued, e.length_oldestFirst]
    have hcount : (waiting.take b.excess).length = b.excess := by
      rw [List.length_take, hlength, Nat.min_eq_left b.excess_le]
    refine ⟨⟨waiting.drop b.excess, (List.take_append_drop ..).symm, ?_⟩, length_push e b m, ?_⟩
    · rw [oldestFirst_push, hqueued, List.map_drop]
    · simp only [push_fst, overflow?, Op.leavers, ← List.length_eq_zero_iff, hcount]
  | setLimit limit => rfl
  | extract p =>
    refine ⟨rfl, ?_⟩
    show e.oldestFirst (b.messages.filter p) = _
    rw [End.oldestFirst_filter, hqueued, List.filter_map]
    rfl
  | drain => exact ⟨rfl, hqueued⟩
  | clear => rfl

/-- The other messages stay, and a new one is behind them. -/
theorem oldestFirst_perform (hnodup : waiting.Nodup) (op : Op) :
    e.oldestFirst (op.perform e b).messages =
      (waiting.filter (· ∉ op.leavers b waiting)).map (·.1) ++ op.pushed?.toList := by
  cases op with
  | push m =>
    rw [Op.leavers, filter_not_mem_take hnodup, List.map_drop, ← hqueued]
    exact oldestFirst_push e b m
  | setLimit limit => simpa [Op.perform, withLimit, Op.leavers, Op.pushed?] using hqueued
  | extract p =>
    have hstay : waiting.filter (· ∉ waiting.filter (p ·.1)) = waiting.filter fun x => !p x.1 :=
      List.filter_congr fun x hx => by simp [hx]
    rw [Op.leavers, hstay]
    show e.oldestFirst (b.messages.filter fun m => !p m) = _ ++ []
    rw [End.oldestFirst_filter, hqueued, List.filter_map, List.append_nil]
    rfl
  | drain | clear =>
    have hnone : waiting.filter (· ∉ waiting) = [] := List.filter_eq_nil_iff.2 (by simp)
    rw [Op.leavers, hnone]
    exact e.oldestFirst_nil

end

/-! ## Numbers -/

theorem nodup_numbered (ops : List Op) : (numbered ops).Nodup := by
  refine List.Nodup.of_map Prod.snd ?_
  rw [numbered, List.zipIdx_map_snd]
  exact List.nodup_range'

/-- A number is that of one message. -/
theorem eq_of_mem_numbered {ops : List Op} {x y : Message × Nat} (hx : x ∈ numbered ops)
    (hy : y ∈ numbered ops) (h : x.2 = y.2) : x = y := by
  have hx := List.mem_zipIdx_iff_getElem?.1 hx
  have hy := List.mem_zipIdx_iff_getElem?.1 hy
  rw [h, hy] at hx
  exact Prod.ext (Option.some.inj hx).symm h

theorem mem_numbers_iff {ops : List Op} {xs : List (Message × Nat)} (hxs : xs ⊆ numbered ops)
    {x : Message × Nat} (hx : x ∈ numbered ops) : x.2 ∈ xs.map (·.2) ↔ x ∈ xs := by
  refine ⟨fun hnumber => ?_, List.mem_map_of_mem⟩
  obtain ⟨y, hy, heq⟩ := List.mem_map.1 hnumber
  rwa [← eq_of_mem_numbered (hxs hy) hx heq]

theorem lt_of_mem_numbered {ops : List Op} {x : Message × Nat} (hx : x ∈ numbered ops) :
    x.2 < (numbered ops).length := by
  obtain ⟨hlt, -⟩ := List.getElem?_eq_some_iff.1 (List.mem_zipIdx_iff_getElem?.1 hx)
  rwa [numbered, List.length_zipIdx]

theorem numbered_concat (ops : List Op) (op : Op) :
    numbered (ops ++ [op]) =
      numbered ops ++ op.pushed?.toList.map fun m => (m, (numbered ops).length) := by
  rw [numbered, List.filterMap_append, List.zipIdx_append, Nat.zero_add, numbered,
    List.length_zipIdx]
  cases h : op.pushed? <;> simp [h]

theorem numbered_length_le {before ops : List Op} (h : before <+: ops) :
    (numbered before).length ≤ (numbered ops).length := by
  rw [numbered, numbered, List.length_zipIdx, List.length_zipIdx]
  exact (h.filterMap _).length_le

/-! ## Runs -/

theorem performAll_concat (e : End) (ops : List Op) (op : Op) (b : Mailbox) :
    performAll e (ops ++ [op]) b = op.perform e (performAll e ops b) :=
  List.foldl_concat ..

section
variable (e : End) (name : String) (limit : Nat) (ops : List Op) (op : Op) (b : Mailbox)

theorem name_perform : (op.perform e b).name = b.name := by
  cases op with
  | push m => cases e <;> rfl
  | setLimit | extract | drain | clear => rfl

theorem limit_perform : (op.perform e b).limit = (op.limit?.map (max · 1)).getD b.limit := by
  cases op with
  | push m => cases e <;> rfl
  | setLimit | extract | drain | clear => rfl

theorem name_performAll : (performAll e ops (create name limit)).name = name := by
  induction ops using List.reverseRecOn with
  | nil => rfl
  | append_singleton ops op ih => rw [performAll_concat, name_perform, ih]

/-- The limit set last is in force. -/
theorem limit_performAll :
    (performAll e ops (create name limit)).limit = limitAfter limit ops := by
  induction ops using List.reverseRecOn with
  | nil => rfl
  | append_singleton ops op ih =>
    rw [performAll_concat, limit_perform, ih, limitAfter, limitAfter, List.filterMap_append,
      List.getLast?_append]
    cases hop : op.limit? <;> simp [hop]

end

/-- More messages leave at a turn. -/
def leftAlso (left : Nat → Option Nat) (t : Nat) (gone : List (Message × Nat)) (i : Nat) :
    Option Nat :=
  if i ∈ gone.map (·.2) then some t else left i

section
variable {left : Nat → Option Nat} {t : Nat} {gone : List (Message × Nat)}
  (hgone : ∀ x ∈ gone, (left x.2).all (t ≤ ·) = true)
include hgone

/-- Messages that leave later wait until then as before. -/
theorem waiting_leftAlso {before : List Op} (hle : before.length ≤ t) :
    waiting (leftAlso left t gone) before = waiting left before := by
  refine List.filter_congr fun x _ => ?_
  rw [leftAlso]
  split
  · rename_i hmem
    obtain ⟨y, hy, heq⟩ := List.mem_map.1 hmem
    have hlate := hgone y hy
    rw [heq] at hlate
    cases hx : left x.2 with
    | none => simpa using hle
    | some s =>
      rw [hx] at hlate
      simp only [Option.all_some, decide_eq_true_eq] at hlate
      simp [hle, hle.trans hlate]
  · rfl

theorem leaving_leftAlso {before : List Op} (hlt : before.length < t) :
    leaving (leftAlso left t gone) before = leaving left before := by
  refine List.filter_congr fun x _ => ?_
  rw [leftAlso]
  split
  · rename_i hmem
    obtain ⟨y, hy, heq⟩ := List.mem_map.1 hmem
    have hlate := hgone y hy
    rw [heq] at hlate
    have hne : left x.2 ≠ some before.length := by
      intro hx
      rw [hx] at hlate
      simp only [Option.all_some, decide_eq_true_eq] at hlate
      omega
    simp [hne, hlt.ne']
  · rfl

end

namespace Accounts

variable {e : End} {name : String} {limit : Nat} {ops : List Op} {left : Nat → Option Nat}
  (h : Accounts e name limit ops left)
include h

/-- No message has left yet at the turn that comes next. -/
theorem lt_length {i t : Nat} (hleft : left i = some t) : t < ops.length := by
  obtain ⟨before, op, after, rfl, rfl, -⟩ := h.inTurn i t hleft
  simp

/-- No message leaves before it is pushed. -/
theorem left_eq_none {i : Nat} (hi : (numbered ops).length ≤ i) : left i = none := by
  rw [Option.eq_none_iff_forall_ne_some]
  intro t hleft
  obtain ⟨before, op, after, rfl, -, hlt⟩ := h.inTurn i t hleft
  have hle : (numbered before).length ≤ (numbered (before ++ op :: after)).length :=
    numbered_length_le (List.prefix_append ..)
  omega

section
variable {gone : List (Message × Nat)}

/-- If some of the waiting messages leave, they leave at this turn. -/
theorem leaving_now (hgone : gone.Sublist (waiting left ops)) :
    leaving (leftAlso left ops.length gone) ops = gone := by
  have hpart : gone.Sublist (numbered ops) := hgone.trans List.filter_sublist
  refine (List.filter_congr fun x hx => ?_).trans
    (filter_mem_of_sublist hpart (nodup_numbered ops))
  have hnever : left x.2 ≠ some ops.length := fun hleft => lt_irrefl _ (h.lt_length hleft)
  rw [leftAlso, if_congr (mem_numbers_iff hpart.subset hx) rfl rfl]
  by_cases hx : x ∈ gone <;> simp [hx, hnever]

/-- The others wait on, and so does a new one. -/
theorem waiting_concat (hgone : gone.Sublist (waiting left ops)) (op : Op) :
    waiting (leftAlso left ops.length gone) (ops ++ [op]) =
      (waiting left ops).filter (· ∉ gone) ++
        op.pushed?.toList.map fun m => (m, (numbered ops).length) := by
  have hpart : gone ⊆ numbered ops := (hgone.trans List.filter_sublist).subset
  rw [waiting, numbered_concat, List.filter_append, waiting, List.filter_filter]
  congr 1
  · refine List.filter_congr fun x hx => ?_
    rw [leftAlso, if_congr (mem_numbers_iff hpart hx) rfl rfl]
    by_cases hmem : x ∈ gone
    · simp [hmem]
    · cases hleft : left x.2 with
      | none => simp [hmem]
      | some t =>
        have hlt := h.lt_length hleft
        simp only [hmem, Option.all_some, List.length_append, List.length_singleton,
          not_false_iff, decide_true, Bool.true_and, decide_eq_decide, if_false]
        omega
  · refine List.filter_eq_self.2 fun x hx => ?_
    obtain ⟨m, -, rfl⟩ := List.mem_map.1 hx
    have hnew : (numbered ops).length ∉ gone.map (·.2) := by
      intro hmem
      obtain ⟨y, hy, heq⟩ := List.mem_map.1 hmem
      exact (lt_of_mem_numbered (hpart hy)).ne heq
    simp [leftAlso, hnew, h.left_eq_none le_rfl]

/-- One more turn. -/
theorem concat (op : Op) :
    Accounts e name limit (ops ++ [op]) (leftAlso left ops.length
      (op.leavers (performAll e ops (create name limit)) (waiting left ops))) := by
  let b := performAll e ops (create name limit)
  have hqueued : e.oldestFirst b.messages = (waiting left ops).map (·.1) :=
    h.queued ops (List.prefix_refl ops)
  have hgone := op.leavers_sublist b (waiting left ops)
  have hlate : ∀ x ∈ op.leavers b (waiting left ops),
      (left x.2).all (ops.length ≤ ·) = true := fun x hx =>
    (List.mem_filter.1 (hgone.subset hx)).2
  refine ⟨fun before _ => limit_performAll e name limit before, fun before hbefore => ?_,
    fun before o after heq => ?_, fun i t hleft => ?_⟩
  · rcases List.prefix_concat_iff.1 hbefore with rfl | hbefore
    · have hnodup : (waiting left ops).Nodup := (nodup_numbered ops).filter _
      rw [h.waiting_concat hgone, List.map_append, List.map_map, performAll_concat,
        oldestFirst_perform hqueued hnodup]
      exact congrArg _ (List.map_id _).symm
    · rw [waiting_leftAlso hlate hbefore.length_le]
      exact h.queued before hbefore
  · rcases List.eq_nil_or_concat after with rfl | ⟨after, last, rfl⟩
    · obtain ⟨rfl, hlast⟩ := List.append_inj' heq rfl
      obtain rfl := List.singleton_inj.1 hlast
      rw [waiting_leftAlso hlate le_rfl, h.leaving_now hgone]
      have hremoves := removes_leavers hqueued op
      rwa [name_performAll, limit_performAll] at hremoves
    · obtain ⟨rfl, -⟩ : ops = before ++ o :: after ∧ [op] = [last] :=
        List.append_inj' (by simpa using heq) rfl
      have hlt : before.length < (before ++ o :: after).length := by simp
      rw [waiting_leftAlso hlate hlt.le, leaving_leftAlso hlate hlt]
      exact h.turns before o after rfl
  · rw [leftAlso] at hleft
    split at hleft
    · rename_i hmem
      obtain ⟨x, hx, rfl⟩ := List.mem_map.1 hmem
      refine ⟨ops, op, [], rfl, Option.some.inj hleft, ?_⟩
      exact lt_of_mem_numbered (List.mem_of_mem_filter (hgone.subset hx))
    · obtain ⟨before, o, after, rfl, hlength, hlt⟩ := h.inTurn i t hleft
      exact ⟨before, o, after ++ [op], by simp, hlength, hlt⟩

end

end Accounts

/-- Whatever is done with a mailbox, as long as all pushes go to the same end of it: each message
pushed is still queued or has left at one turn. What is queued, what is taken and what is dropped
stands in the order of the pushes, only the oldest messages are dropped, as many as the limit set
last leaves no room for, and a push reports how many if it drops any. -/
theorem exists_accounts (e : End) (name : String) (limit : Nat) (ops : List Op) :
    ∃ left, Accounts e name limit ops left := by
  induction ops using List.reverseRecOn with
  | nil =>
    refine ⟨fun _ => none, fun before _ => limit_performAll e name limit before,
      fun before hbefore => ?_, fun before op after heq => ?_, nofun⟩
    · obtain rfl := List.prefix_nil.1 hbefore
      exact e.oldestFirst_nil
    · simp at heq
  | append_singleton ops op ih =>
    obtain ⟨left, h⟩ := ih
    exact ⟨_, h.concat op⟩

/-- The limit shrinks below the number of messages, and the next push drops three of them. -/
example (v w x y z : Message) :
    let full := performAll .back [.push v, .push w, .push x, .push y, .setLimit 2]
      (create "inbox" 5)
    full.messages = [v, w, x, y] ∧ full.limit = 2 ∧
      (full.push .back z).1 = some (.mailboxOverflow "inbox" 3) ∧
      (full.push .back z).2.messages = [y, z] := by
  cbv

end PubSub.Mailbox
