import PProfessor.HeapCalls

set_option autoImplicit false

/-!
# The accounting reference

The reference keeps the history of successful calls and nothing else. The three
structures of the tracker stay consistent with it, and a snapshot reads the
reference's sums.
-/
namespace PProfessor.Heap
open KeyedSum

structure Block where
  address : UInt64
  size : UInt64
  stack : Stack

inductive Call where
  | allocate (address size : UInt64) (stack : Stack)
  | release (address : UInt64)
  deriving DecidableEq

def Call.run : Call → NativeHeapTracker.HeapM Unit
  | .allocate address size stack => NativeHeapTracker.allocate address size stack
  | .release address => NativeHeapTracker.release address

/-- Make the calls in order, going on after a failed one. The list that comes
back holds the calls that succeeded. -/
def NativeHeapTracker.run (t : NativeHeapTracker) : List Call → List Call × NativeHeapTracker
  | [] => ([], t)
  | call :: calls =>
    match call.run t with
    | .ok _ t' => (call :: (run t' calls).1, (run t' calls).2)
    | .error _ t' => run t' calls

/-- The blocks of the allocations in a history. -/
def allocations : List Call → List Block
  | [] => []
  | .allocate address size stack :: calls => ⟨address, size, stack⟩ :: allocations calls
  | .release _ :: calls => allocations calls

/-- The blocks of the allocations whose address is not released later on. -/
def unreleased : List Call → List Block
  | [] => []
  | .allocate address size stack :: calls =>
    if .release address ∈ calls then unreleased calls
    else ⟨address, size, stack⟩ :: unreleased calls
  | .release _ :: calls => unreleased calls

theorem allocations_append (xs ys : List Call) :
    allocations (xs ++ ys) = allocations xs ++ allocations ys := by
  induction xs with
  | nil => rfl
  | cons call calls ih =>
    cases call with
    | allocate address size stack => simp [allocations, ih]
    | release address => simp [allocations, ih]

theorem forall_mem_allocations_concat {P : Block → Prop} {calls : List Call}
    {address size : UInt64} {stack : Stack} (h : ∀ b ∈ allocations calls, P b)
    (hnew : P ⟨address, size, stack⟩) :
    ∀ b ∈ allocations (calls ++ [.allocate address size stack]), P b := by
  intro b hb
  rw [allocations_append] at hb
  rcases List.mem_append.mp hb with hb | hb
  · exact h b hb
  · rw [List.mem_singleton.mp hb]
    exact hnew

theorem unreleased_sublist (calls : List Call) :
    (unreleased calls).Sublist (allocations calls) := by
  induction calls with
  | nil => exact .slnil
  | cons call calls ih =>
    cases call with
    | allocate address size stack =>
      unfold unreleased allocations
      split_ifs
      · exact ih.cons _
      · exact ih.cons_cons _
    | release address => exact ih

theorem unreleased_concat_allocate (calls : List Call) (address size : UInt64) (stack : Stack) :
    unreleased (calls ++ [.allocate address size stack]) =
      unreleased calls ++ [⟨address, size, stack⟩] := by
  induction calls with
  | nil => simp [unreleased]
  | cons call calls ih =>
    cases call with
    | allocate a s st =>
      by_cases h : Call.release a ∈ calls
      · simp [unreleased, h, ih]
      · simp [unreleased, h, ih]
    | release a => simp [unreleased, ih]

theorem unreleased_concat_release (calls : List Call) (address : UInt64) :
    unreleased (calls ++ [.release address]) =
      (unreleased calls).filter fun b => b.address ≠ address := by
  induction calls with
  | nil => simp [unreleased]
  | cons call calls ih =>
    cases call with
    | allocate a s st =>
      by_cases h : Call.release a ∈ calls
      · simp [unreleased, h, ih]
      · by_cases ha : a = address
        · subst ha
          simp [unreleased, h, ih]
        · simp [unreleased, h, ha, ih]
    | release a => simp [unreleased, ih]

/-! ## The invariant -/

def Block.allocCost (b : Block) : Cost := (1, b.size.toNat, 0, 0)

def Block.inuseCost (b : Block) : Cost := (0, 0, 1, b.size.toNat)

/-- What the tracker knows after the given successful calls. -/
structure Accounts (t : NativeHeapTracker) (done : List Call) : Prop where
  ids : ∀ (stack : Stack) (id : ℕ), t.stackIds[stack]? = some id ↔
    (t.stackValues.map Prod.fst)[id]? = some stack
  known : ∀ stack : Stack, (∃ id, t.stackIds[stack]? = some id) ↔
    ∃ b ∈ allocations done, b.stack = stack
  stack_ne_nil : ∀ b ∈ allocations done, b.stack ≠ []
  values : ∀ (id : ℕ) (entry : Stack × HeapValues), t.stackValues[id]? = some entry →
    entry.2.cost = total Block.stack Block.allocCost (allocations done) entry.1 ∧
      entry.2.cost ≤ costLimit
  live : ∀ (address size : UInt64) (id : ℕ), t.live[address]? = some (size, id) ↔
    ∃ b ∈ unreleased done, b.address = address ∧ b.size = size ∧ t.stackIds[b.stack]? = some id
  address_ne_zero : ∀ b ∈ allocations done, b.address ≠ 0
  addresses : ((unreleased done).map Block.address).Nodup

theorem accounts_new (domain : String) : Accounts (.new domain) [] := by
  refine ⟨?_, ?_, ?_, ?_, ?_, ?_, ?_⟩
  all_goals simp [NativeHeapTracker.new, allocations, unreleased]

namespace Accounts
variable {t : NativeHeapTracker} {done : List Call}

theorem id_injective (h : Accounts t done) {stack stack' : Stack} {id : ℕ}
    (hs : t.stackIds[stack]? = some id) (hs' : t.stackIds[stack']? = some id) :
    stack = stack' := by
  have h₁ := (h.ids stack id).mp hs
  have h₂ := (h.ids stack' id).mp hs'
  exact Option.some.inj (h₁.symm.trans h₂)

theorem live_stack (h : Accounts t done) {b : Block} (hb : b ∈ unreleased done) :
    ∃ id, t.stackIds[b.stack]? = some id :=
  (h.known b.stack).mpr ⟨b, (unreleased_sublist done).subset hb, rfl⟩

theorem unreleased_ne (h : Accounts t done) {address : UInt64} (ha : t.live[address]? = none) :
    ∀ b ∈ unreleased done, b.address ≠ address := by
  intro b hb he
  obtain ⟨id, hid⟩ := h.live_stack hb
  have hl := (h.live address b.size id).mpr ⟨b, hb, he, rfl, hid⟩
  rw [ha] at hl
  cases hl

theorem addresses_concat (h : Accounts t done) {address size : UInt64} {stack : Stack}
    (ha : t.live[address]? = none) :
    ((unreleased (done ++ [.allocate address size stack])).map Block.address).Nodup := by
  rw [unreleased_concat_allocate, List.map_append]
  refine List.nodup_append.mpr ⟨h.addresses, List.nodup_singleton _, ?_⟩
  intro a hold b hnew
  obtain ⟨block, hblock, rfl⟩ := List.mem_map.mp hold
  rw [List.map_singleton, List.mem_singleton] at hnew
  rw [hnew]
  exact h.unreleased_ne ha block hblock

theorem live_concat (h : Accounts t done) {address size : UInt64} {stack : Stack} {id : ℕ}
    {ids : Std.ExtHashMap Stack ℕ} (ha : t.live[address]? = none) (hid : ids[stack]? = some id)
    (hids : ∀ b ∈ unreleased done, ids[b.stack]? = t.stackIds[b.stack]?) :
    ∀ (a s : UInt64) (i : ℕ), (t.live.insert address (size, id))[a]? = some (s, i) ↔
      ∃ b ∈ unreleased (done ++ [.allocate address size stack]),
        b.address = a ∧ b.size = s ∧ ids[b.stack]? = some i := by
  intro a s i
  have hold : (∃ b ∈ unreleased done, b.address = a ∧ b.size = s ∧ ids[b.stack]? = some i) ↔
      t.live[a]? = some (s, i) := by
    rw [h.live]
    constructor
    · rintro ⟨b, hb, h₁, h₂, h₃⟩
      exact ⟨b, hb, h₁, h₂, (hids b hb).symm.trans h₃⟩
    · rintro ⟨b, hb, h₁, h₂, h₃⟩
      exact ⟨b, hb, h₁, h₂, (hids b hb).trans h₃⟩
  rw [unreleased_concat_allocate, Std.ExtHashMap.getElem?_insert]
  simp only [List.mem_append, List.mem_singleton, or_and_right, exists_or, hold, exists_eq_left,
    hid, Option.some.injEq]
  by_cases he : address = a
  · subst he
    simp [ha]
  · simp [he]

/-- An allocation on a known stack adds to that stack's values. -/
theorem allocate_known (h : Accounts t done) {address size : UInt64} {stack : Stack} {id : ℕ}
    {entry : Stack × HeapValues} {sum : HeapValues} (ha : address ≠ 0)
    (hdead : t.live[address]? = none) (hid : t.stackIds[stack]? = some id)
    (hentry : t.stackValues[id]? = some entry)
    (hsum : entry.2.checkedAdd (NativeHeapTracker.objectCost size) = .ok sum) :
    Accounts ({ t with stackValues := t.stackValues.set id (entry.1, sum) }.withLive
      address size id) (done ++ [.allocate address size stack]) := by
  have hname := (h.ids stack id).mp hid
  rw [List.getElem?_map, hentry] at hname
  have hstack : entry.1 = stack := Option.some.inj hname
  have hlt : id < t.stackValues.length := (List.getElem?_eq_some_iff.mp hentry).choose
  obtain ⟨hcost, hle⟩ := HeapValues.checkedAdd_ok hsum
  have hnames : (t.stackValues.set id (entry.1, sum)).map Prod.fst =
      t.stackValues.map Prod.fst := by
    rw [List.map_set]
    apply List.ext_getElem?
    intro j
    by_cases hj : j = id
    · subst hj
      rw [List.getElem?_set_self (by simpa using hlt), List.getElem?_map, hentry]
      rfl
    · rw [List.getElem?_set_ne (Ne.symm hj)]
  obtain ⟨known, hknown, hks⟩ := (h.known stack).mp ⟨id, hid⟩
  refine ⟨?_, ?_, ?_, ?_, ?_, ?_, h.addresses_concat hdead⟩
  · intro st i
    change t.stackIds[st]? = some i ↔ ((t.stackValues.set id (entry.1, sum)).map Prod.fst)[i]? = _
    rw [hnames]
    exact h.ids st i
  · intro st
    change (∃ i, t.stackIds[st]? = some i) ↔ _
    rw [h.known, allocations_append]
    simp only [allocations, List.mem_append, List.mem_singleton, or_and_right, exists_or,
      exists_eq_left]
    constructor
    · exact .inl
    · rintro (hb | rfl)
      · exact hb
      · exact ⟨known, hknown, hks⟩
  · apply forall_mem_allocations_concat h.stack_ne_nil
    change stack ≠ []
    rw [← hks]
    exact h.stack_ne_nil known hknown
  · intro j e hj
    change (t.stackValues.set id (entry.1, sum))[j]? = some e at hj
    rw [allocations_append, total_append]
    by_cases hji : j = id
    · subst hji
      rw [List.getElem?_set_self hlt] at hj
      cases hj
      refine ⟨?_, hle⟩
      rw [hcost, (h.values j entry hentry).1, hstack]
      simp only [allocations]
      rw [total_cons_eq Block.stack Block.allocCost (x := (⟨address, size, stack⟩ : Block)) rfl,
        total_nil, add_zero]
      rfl
    · rw [List.getElem?_set_ne (Ne.symm hji)] at hj
      have hne : stack ≠ e.1 := by
        intro he
        have hid' := (h.ids stack j).mpr (by rw [List.getElem?_map, hj, he]; rfl)
        rw [hid] at hid'
        exact hji (Option.some.inj hid').symm
      have hother : total Block.stack Block.allocCost [⟨address, size, stack⟩] e.1 = 0 := by
        apply total_eq_zero
        simpa using hne
      refine ⟨?_, (h.values j e hj).2⟩
      rw [(h.values j e hj).1]
      simp only [allocations]
      rw [hother, add_zero]
  · exact h.live_concat hdead hid fun _ _ => rfl
  · exact forall_mem_allocations_concat h.address_ne_zero ha

/-- An allocation on a stack not seen before registers it under the next id. -/
theorem allocate_new (h : Accounts t done) {address size : UInt64} {stack : Stack}
    {sum : HeapValues} (ha : address ≠ 0) (hs : stack ≠ []) (hdead : t.live[address]? = none)
    (hid : t.stackIds[stack]? = none)
    (hsum : (default : HeapValues).checkedAdd (NativeHeapTracker.objectCost size) = .ok sum) :
    Accounts ({ t with
        stackIds := t.stackIds.insert stack t.stackValues.length
        stackValues := t.stackValues ++ [(stack, sum)] }.withLive
      address size t.stackValues.length) (done ++ [.allocate address size stack]) := by
  obtain ⟨hcost, hle⟩ := HeapValues.checkedAdd_ok hsum
  have hfresh : ∀ b ∈ allocations done, b.stack ≠ stack := by
    intro b hb he
    obtain ⟨id, hb⟩ := (h.known stack).mpr ⟨b, hb, he⟩
    rw [hid] at hb
    cases hb
  have hself : (t.stackIds.insert stack t.stackValues.length)[stack]? =
      some t.stackValues.length := by
    rw [Std.ExtHashMap.getElem?_insert_self]
  have hother : ∀ st, stack ≠ st →
      (t.stackIds.insert stack t.stackValues.length)[st]? = t.stackIds[st]? := by
    intro st hst
    rw [Std.ExtHashMap.getElem?_insert, if_neg (by simpa using hst)]
  refine ⟨?_, ?_, forall_mem_allocations_concat h.stack_ne_nil hs, ?_, ?_,
    forall_mem_allocations_concat h.address_ne_zero ha, h.addresses_concat hdead⟩
  · intro st id
    change (t.stackIds.insert stack t.stackValues.length)[st]? = some id ↔
      ((t.stackValues ++ [(stack, sum)]).map Prod.fst)[id]? = some st
    rw [List.map_append, List.map_singleton]
    by_cases hst : stack = st
    · subst hst
      rw [hself, Option.some.injEq]
      constructor
      · rintro rfl
        rw [List.getElem?_append_right (by simp)]
        simp
      · intro hget
        by_contra hne
        by_cases hlt : id < t.stackValues.length
        · rw [List.getElem?_append_left (by simpa using hlt), ← h.ids, hid] at hget
          cases hget
        · rw [List.getElem?_eq_none (by simp; omega)] at hget
          cases hget
    · rw [hother st hst, h.ids]
      by_cases hlt : id < t.stackValues.length
      · rw [List.getElem?_append_left (by simpa using hlt)]
      · rw [List.getElem?_eq_none (by simpa using hlt),
          List.getElem?_append_right (by simpa using hlt), List.getElem?_singleton]
        split_ifs
        · simp [hst]
        · rfl
  · intro st
    change (∃ id, (t.stackIds.insert stack t.stackValues.length)[st]? = some id) ↔ _
    rw [allocations_append]
    simp only [allocations, List.mem_append, List.mem_singleton, or_and_right, exists_or,
      exists_eq_left]
    by_cases hst : stack = st
    · subst hst
      simp
    · rw [hother st hst, h.known]
      simp [hst]
  · intro id entry hentry
    change (t.stackValues ++ [(stack, sum)])[id]? = some entry at hentry
    rw [allocations_append, total_append]
    by_cases hlt : id < t.stackValues.length
    · rw [List.getElem?_append_left hlt] at hentry
      have hne : stack ≠ entry.1 := by
        intro he
        have hget := (h.ids stack id).mpr (by rw [List.getElem?_map, hentry, he]; rfl)
        rw [hid] at hget
        cases hget
      have hzero : total Block.stack Block.allocCost [⟨address, size, stack⟩] entry.1 = 0 := by
        apply total_eq_zero
        simpa using hne
      refine ⟨?_, (h.values id entry hentry).2⟩
      rw [(h.values id entry hentry).1]
      simp only [allocations]
      rw [hzero, add_zero]
    · rw [List.getElem?_append_right (by omega), List.getElem?_singleton] at hentry
      split_ifs at hentry
      cases hentry
      refine ⟨?_, hle⟩
      rw [hcost, total_eq_zero Block.stack Block.allocCost hfresh]
      simp only [allocations]
      rw [total_cons_eq Block.stack Block.allocCost (x := (⟨address, size, stack⟩ : Block)) rfl,
        total_nil, add_zero]
      rfl
  · apply h.live_concat hdead hself
    intro b hb
    exact hother b.stack fun he => hfresh b ((unreleased_sublist done).subset hb) he.symm

/-- At a dead address `allocate` adds to the values of the stack so far, then enters the block. -/
theorem allocate_dead (h : Accounts t done) {address : UInt64} (size : UInt64) {stack : Stack}
    (haddress : address ≠ 0) (hstack : stack ≠ []) (hdead : t.live[address]? = none) :
    ∃ (v : HeapValues) (grown : HeapValues → NativeHeapTracker) (id : ℕ),
      v.cost = total Block.stack Block.allocCost (allocations done) stack ∧
      (∀ sum, (grown sum).live = t.live) ∧
      NativeHeapTracker.allocate address size stack t =
        match v.checkedAdd (NativeHeapTracker.objectCost size) with
        | .error error => .error error t
        | .ok sum => .ok () ((grown sum).withLive address size id) := by
  have hrun := NativeHeapTracker.allocate_run address size stack t
  rw [if_neg haddress, if_neg hstack, if_neg (not_not.mpr hdead)] at hrun
  cases hid : t.stackIds[stack]? with
  | some id =>
    have hname := (h.ids stack id).mp hid
    rw [List.getElem?_map] at hname
    obtain ⟨entry, hentry, hsame⟩ := Option.map_eq_some_iff.mp hname
    have hvalue := (h.values id entry hentry).1
    rw [hsame] at hvalue
    simp only [hid, hentry] at hrun
    exact ⟨entry.2, fun sum => { t with stackValues := t.stackValues.set id (entry.1, sum) }, id,
      hvalue, fun _ => rfl, hrun⟩
  | none =>
    have hvalue : total Block.stack Block.allocCost (allocations done) stack = 0 := by
      refine total_eq_zero _ _ fun b hb hs => ?_
      obtain ⟨id, hknown⟩ := (h.known stack).mpr ⟨b, hb, hs⟩
      rw [hid] at hknown
      cases hknown
    simp only [hid] at hrun
    exact ⟨default, fun sum => { t with
      stackIds := t.stackIds.insert stack t.stackValues.length
      stackValues := t.stackValues ++ [(stack, sum)] }, _, hvalue.symm, fun _ => rfl, hrun⟩

theorem total_allocate {v : HeapValues} {calls : List Call} {stack : Stack}
    (hv : v.cost = total Block.stack Block.allocCost (allocations calls) stack)
    (address size : UInt64) :
    total Block.stack Block.allocCost (allocations calls ++ [⟨address, size, stack⟩]) stack =
      v.cost + (NativeHeapTracker.objectCost size).cost := by
  rw [hv, total_append, total_cons_eq Block.stack Block.allocCost rfl, total_nil, add_zero]
  rfl

/-- A release forgets the block at its address, if there is one. -/
theorem release (h : Accounts t done) {address : UInt64} {t' : NativeHeapTracker}
    (hr : NativeHeapTracker.release address t = .ok () t') :
    Accounts t' (done ++ [.release address]) := by
  obtain ⟨hids, hvalues, hlive⟩ := NativeHeapTracker.release_ok hr
  have halloc : allocations (done ++ [.release address]) = allocations done := by
    rw [allocations_append]
    exact List.append_nil _
  refine ⟨?_, ?_, ?_, ?_, ?_, ?_, ?_⟩
  · rw [hids, hvalues]
    exact h.ids
  · rw [hids, halloc]
    exact h.known
  · rw [halloc]
    exact h.stack_ne_nil
  · rw [hvalues, halloc]
    exact h.values
  · intro a s id
    rw [hids, unreleased_concat_release]
    simp only [List.mem_filter, decide_eq_true_eq]
    rcases hlive with ⟨rfl, rfl⟩ | ⟨_, hlive⟩
    · have hz : ∀ b ∈ unreleased done, b.address ≠ 0 := fun b hb =>
        h.address_ne_zero b ((unreleased_sublist done).subset hb)
      rw [h.live]
      constructor
      · rintro ⟨b, hb, hrest⟩
        exact ⟨b, ⟨hb, hz b hb⟩, hrest⟩
      · rintro ⟨b, ⟨hb, _⟩, hrest⟩
        exact ⟨b, hb, hrest⟩
    · rw [hlive, Std.ExtHashMap.getElem?_erase]
      by_cases he : address = a
      · subst he
        simp only [BEq.rfl, ↓reduceIte, reduceCtorEq, false_iff]
        rintro ⟨b, ⟨_, hne⟩, he, _⟩
        exact hne he
      · rw [if_neg (by simpa using he), h.live]
        constructor
        · rintro ⟨b, hb, rfl, hrest⟩
          exact ⟨b, ⟨hb, Ne.symm he⟩, rfl, hrest⟩
        · rintro ⟨b, ⟨hb, _⟩, hrest⟩
          exact ⟨b, hb, hrest⟩
  · rw [halloc]
    exact h.address_ne_zero
  · rw [unreleased_concat_release]
    exact h.addresses.sublist (List.filter_sublist.map _)

theorem release_unknown (h : Accounts t done) {address : UInt64} {t' : NativeHeapTracker}
    {e : HeapError} (hr : NativeHeapTracker.release address t = .error e t') :
    Accounts t' (done ++ [.release address]) := by
  obtain ⟨hsame, hdead⟩ := NativeHeapTracker.release_error hr
  have hunreleased : unreleased (done ++ [.release address]) = unreleased done := by
    rw [unreleased_concat_release, List.filter_eq_self]
    intro b hb
    simpa using h.unreleased_ne hdead b hb
  have hallocations : allocations (done ++ [.release address]) = allocations done := by
    rw [allocations_append]
    exact List.append_nil _
  rw [hsame]
  constructor
  · exact h.ids
  · rw [hallocations]
    exact h.known
  · rw [hallocations]
    exact h.stack_ne_nil
  · rw [hallocations]
    exact h.values
  · rw [hunreleased]
    exact h.live
  · rw [hallocations]
    exact h.address_ne_zero
  · rw [hunreleased]
    exact h.addresses

theorem call (h : Accounts t done) {c : Call} {t' : NativeHeapTracker}
    (hc : c.run t = .ok () t') : Accounts t' (done ++ [c]) := by
  cases c with
  | release address => exact h.release hc
  | allocate address size stack =>
    obtain ⟨ha, hs, hdead, hcase⟩ := NativeHeapTracker.allocate_ok hc
    rcases hcase with ⟨id, entry, sum, hid, hentry, hsum, rfl⟩ | ⟨sum, hid, hsum, rfl⟩
    · exact h.allocate_known ha hdead hid hentry hsum
    · exact h.allocate_new ha hs hdead hid hsum

end Accounts

theorem Call.run_error {c : Call} {t t' : NativeHeapTracker} {e : HeapError}
    (h : c.run t = .error e t') : t' = t := by
  cases c with
  | release address => exact (NativeHeapTracker.release_error h).1
  | allocate address size stack => exact NativeHeapTracker.allocate_error h

theorem Accounts.run {t : NativeHeapTracker} {done : List Call} (h : Accounts t done)
    (calls : List Call) : Accounts (t.run calls).2 (done ++ (t.run calls).1) := by
  induction calls generalizing t done with
  | nil => simpa [NativeHeapTracker.run] using h
  | cons c calls ih =>
    unfold NativeHeapTracker.run
    cases hc : c.run t with
    | ok u t' =>
      have hrest := ih (h.call hc)
      rw [List.append_assoc, List.singleton_append] at hrest
      exact hrest
    | error e t' =>
      rw [Call.run_error hc]
      exact ih h

/-! ## Reading a snapshot -/

def objectCount (blocks : List Block) (stack : Stack) : ℕ :=
  (blocks.filter fun b => b.stack = stack).length

def byteSum (blocks : List Block) (stack : Stack) : ℕ :=
  ((blocks.filter fun b => b.stack = stack).map fun b => b.size.toNat).sum

theorem total_one (blocks : List Block) (stack : Stack) :
    total Block.stack (fun _ => 1) blocks stack = objectCount blocks stack := by
  simp [total, objectCount]

theorem total_allocCost (blocks : List Block) (stack : Stack) :
    total Block.stack Block.allocCost blocks stack =
      (objectCount blocks stack, byteSum blocks stack, 0, 0) := by
  unfold Block.allocCost
  rw [total_prod, total_prod, total_prod, total_one, total_zero]
  rfl

theorem total_inuseCost (blocks : List Block) (stack : Stack) :
    total Block.stack Block.inuseCost blocks stack =
      (0, 0, objectCount blocks stack, byteSum blocks stack) := by
  unfold Block.inuseCost
  rw [total_prod, total_prod, total_prod, total_one, total_zero]
  rfl

theorem objectCount_le {xs ys : List Block} (h : xs.Sublist ys) (stack : Stack) :
    objectCount xs stack ≤ objectCount ys stack :=
  (h.filter _).length_le

theorem byteSum_le {xs ys : List Block} (h : xs.Sublist ys) (stack : Stack) :
    byteSum xs stack ≤ byteSum ys stack :=
  total_le_of_sublist Block.stack (fun b => b.size.toNat) h stack

namespace Accounts
variable {t : NativeHeapTracker} {done : List Call}

/-- The live entries of one stack id are the unreleased blocks of that stack. -/
theorem total_live (h : Accounts t done) {order : List (UInt64 × UInt64 × ℕ)}
    (ho : Enumerates order t.live) {stack : Stack} {id : ℕ} (hid : t.stackIds[stack]? = some id) :
    total liveId liveCost order id = total Block.stack Block.inuseCost (unreleased done) stack := by
  let entryOf : Block → UInt64 × UInt64 × ℕ :=
    fun b => (b.address, b.size, (t.stackIds[b.stack]?).getD 0)
  have hget : ∀ b ∈ unreleased done, t.stackIds[b.stack]? = some (entryOf b).2.2 := by
    intro b hb
    obtain ⟨i, hi⟩ := h.live_stack hb
    rw [hi]
    simp [entryOf, hi]
  have hnodup : ((unreleased done).map entryOf).Nodup := by
    have hmap : ((unreleased done).map entryOf).map Prod.fst =
        (unreleased done).map Block.address := by
      rw [List.map_map]
      rfl
    refine List.Nodup.of_map Prod.fst ?_
    rw [hmap]
    exact h.addresses
  have hperm : order.Perm ((unreleased done).map entryOf) := by
    refine (List.perm_ext_iff_of_nodup ho.nodup hnodup).mpr ?_
    rintro ⟨address, size, i⟩
    rw [ho.mem_iff, h.live, List.mem_map]
    constructor
    · rintro ⟨b, hb, rfl, rfl, hi⟩
      rw [hget b hb] at hi
      exact ⟨b, hb, by rw [← Option.some.inj hi]⟩
    · rintro ⟨b, hb, he⟩
      have he' : b.address = address ∧ b.size = size ∧ (entryOf b).2.2 = i := by
        simpa [entryOf] using he
      exact ⟨b, hb, he'.1, he'.2.1, by rw [hget b hb, he'.2.2]⟩
  rw [total_perm liveId liveCost hperm, total_map]
  apply total_congr
  · intro b hb
    constructor
    · intro hi
      change (entryOf b).2.2 = id at hi
      exact h.id_injective ((hget b hb).trans (by rw [hi])) hid
    · intro hs
      have hi := hget b hb
      rw [hs, hid] at hi
      exact (Option.some.inj hi).symm
  · intro b _
    rfl

theorem snapshot (h : Accounts t done) {order : List (UInt64 × UInt64 × ℕ)}
    (ho : Enumerates order t.live) (now : ℤ) :
    ∃ profile, t.snapshot order now = .ok profile ∧
      (∀ b ∈ allocations done, ∃ v : HeapValues, profile.samples[b.stack]? = some v) ∧
      ∀ (stack : Stack) (v : HeapValues), profile.samples[stack]? = some v ↔
        (∃ b ∈ allocations done, b.stack = stack) ∧
        v.cost = (objectCount (allocations done) stack, byteSum (allocations done) stack,
          objectCount (unreleased done) stack, byteSum (unreleased done) stack) ∧
        v.cost ≤ costLimit := by
  have hsplit : ∀ stack, total Block.stack Block.allocCost (allocations done) stack +
      total Block.stack Block.inuseCost (unreleased done) stack =
        (objectCount (allocations done) stack, byteSum (allocations done) stack,
          objectCount (unreleased done) stack, byteSum (unreleased done) stack) := by
    intro stack
    rw [total_allocCost, total_inuseCost]
    simp
  have hentry : ∀ id stack v, t.stackValues[id]? = some (stack, v) →
      v.cost + total liveId liveCost order id =
        (objectCount (allocations done) stack, byteSum (allocations done) stack,
          objectCount (unreleased done) stack, byteSum (unreleased done) stack) ∧
      v.cost + total liveId liveCost order id ≤ costLimit := by
    intro id stack v hv
    have hid := (h.ids stack id).mpr (by rw [List.getElem?_map, hv]; rfl)
    obtain ⟨hcost, hle⟩ := h.values id (stack, v) hv
    change v.cost = _ at hcost
    change v.cost ≤ _ at hle
    have hsub := unreleased_sublist done
    rw [h.total_live ho hid]
    refine ⟨by rw [hcost, hsplit], ?_⟩
    rw [hcost, total_allocCost] at hle
    rw [hcost, hsplit]
    obtain ⟨hn, hs, -, -⟩ := hle
    exact ⟨hn, hs, (objectCount_le hsub stack).trans hn, (byteSum_le hsub stack).trans hs⟩
  obtain ⟨charged, hcharged, hmap⟩ := chargeLive_ok order (t.stackValues.map Prod.snd)
    (by
      rintro ⟨address, size, id⟩ he
      obtain ⟨b, _, _, _, hid⟩ := (h.live address size id).mp ((ho.mem_iff _ _).mp he)
      have hlt := (List.getElem?_eq_some_iff.mp ((h.ids b.stack id).mp hid)).choose
      simpa [liveId] using hlt)
    (by
      intro id v hv
      rw [List.getElem?_map] at hv
      obtain ⟨⟨stack, w⟩, hw, rfl⟩ := Option.map_eq_some_iff.mp hv
      exact (hentry id stack w hw).2)
  have hcost : ∀ id : ℕ, (charged[id]?).map HeapValues.cost =
      (t.stackValues[id]?).map fun e => e.2.cost + total liveId liveCost order id := by
    intro id
    rw [← List.getElem?_map, hmap, List.getElem?_mapIdx, List.getElem?_map, Option.map_map]
    rfl
  have hlen : charged.length = t.stackValues.length := by
    simpa using congrArg List.length hmap
  have hmem : ∀ stack v, (stack, v) ∈ (t.stackValues.map Prod.fst).zip charged ↔
      (∃ b ∈ allocations done, b.stack = stack) ∧
      v.cost = (objectCount (allocations done) stack, byteSum (allocations done) stack,
        objectCount (unreleased done) stack, byteSum (unreleased done) stack) ∧
      v.cost ≤ costLimit := by
    intro stack v
    rw [List.mem_iff_getElem?, ← h.known]
    constructor
    · rintro ⟨id, hid⟩
      obtain ⟨hname, hv⟩ := List.getElem?_zip_eq_some.mp hid
      have hc := hcost id
      rw [List.getElem?_map] at hname
      obtain ⟨⟨st, w⟩, hw, rfl⟩ := Option.map_eq_some_iff.mp hname
      rw [hv, hw] at hc
      obtain ⟨hsum, hle⟩ := hentry id st w hw
      have hvc : v.cost = w.cost + total liveId liveCost order id := Option.some.inj hc
      exact ⟨⟨id, (h.ids st id).mpr (by rw [List.getElem?_map, hw]; rfl)⟩,
        by rw [hvc, hsum], by rwa [hvc]⟩
    · rintro ⟨⟨id, hid⟩, hv, _⟩
      have hname := (h.ids stack id).mp hid
      have hc := hcost id
      refine ⟨id, List.getElem?_zip_eq_some.mpr ⟨hname, ?_⟩⟩
      rw [List.getElem?_map] at hname
      obtain ⟨⟨st, w⟩, hw, rfl⟩ := Option.map_eq_some_iff.mp hname
      rw [hw] at hc
      obtain ⟨v', hv', hvc⟩ := Option.map_eq_some_iff.mp hc
      have hvc' : v'.cost = v.cost := by
        rw [hvc, hv]
        exact (hentry id st w hw).1
      rw [hv', cost_injective hvc']
  have hnames : ((t.stackValues.map Prod.fst).zip charged).map Prod.fst =
      t.stackValues.map Prod.fst := List.map_fst_zip (by simp [hlen])
  obtain ⟨profile, hok, hsamples⟩ := addSamples_ok ((t.stackValues.map Prod.fst).zip charged)
    (.new t.domain now)
    (by
      rintro ⟨stack, v⟩ he
      obtain ⟨⟨b, hb, rfl⟩, _⟩ := (hmem stack v).mp he
      exact h.stack_ne_nil b hb)
    (by
      rw [hnames]
      refine List.nodup_iff_getElem?_ne_getElem?.mpr ?_
      intro i j hij hj heq
      have hst := List.getElem?_eq_getElem hj
      have hi := (h.ids _ i).mpr (heq.trans hst)
      rw [(h.ids _ j).mpr hst] at hi
      exact hij.ne (Option.some.inj hi).symm)
    (by simp [HeapProfile.new])
    (by
      rintro ⟨stack, v⟩ he
      exact ((hmem stack v).mp he).2.2)
  refine ⟨profile, ?_, ?_, ?_⟩
  · simp only [NativeHeapTracker.snapshot, hcharged, bind, Except.bind]
    exact hok
  · intro b hb
    obtain ⟨id, hid⟩ := (h.known b.stack).mpr ⟨b, hb, rfl⟩
    have hname := (h.ids b.stack id).mp hid
    have hlt : id < charged.length := by
      rw [hlen]
      simpa using (List.getElem?_eq_some_iff.mp hname).choose
    have hv := List.getElem?_eq_getElem hlt
    have hz : ((t.stackValues.map Prod.fst).zip charged)[id]? = some (b.stack, charged[id]) :=
      List.getElem?_zip_eq_some.mpr ⟨hname, hv⟩
    have hin := List.mem_of_getElem? hz
    exact ⟨_, (hsamples _ _).mpr (.inr hin)⟩
  · intro stack v
    rw [hsamples, hmem]
    simp [HeapProfile.new]

end Accounts

/-- After any calls from a new tracker, a snapshot succeeds and reads the
history of the successful ones; a failed call changes nothing. -/
theorem snapshot_reads_history (domain : String) (calls : List Call) (now : ℤ)
    (order : List (UInt64 × UInt64 × ℕ))
    (ho : Enumerates order ((NativeHeapTracker.new domain).run calls).2.live) :
    (∀ (t t' : NativeHeapTracker) (c : Call) (e : HeapError), c.run t = .error e t' → t' = t) ∧
    ∃ profile, ((NativeHeapTracker.new domain).run calls).2.snapshot order now = .ok profile ∧
      ∀ stack : Stack,
        (profile.samples[stack]?.isSome ↔
          ∃ b ∈ allocations ((NativeHeapTracker.new domain).run calls).1, b.stack = stack) ∧
        ∀ v, profile.samples[stack]? = some v →
          v.allocObjects.toNat =
            objectCount (allocations ((NativeHeapTracker.new domain).run calls).1) stack ∧
          v.allocSpace.toNat =
            byteSum (allocations ((NativeHeapTracker.new domain).run calls).1) stack ∧
          v.inuseObjects.toNat =
            objectCount (unreleased ((NativeHeapTracker.new domain).run calls).1) stack ∧
          v.inuseSpace.toNat =
            byteSum (unreleased ((NativeHeapTracker.new domain).run calls).1) stack ∧
          v.inuseObjects ≤ v.allocObjects ∧ v.inuseSpace ≤ v.allocSpace ∧
          v.cost ≤ costLimit := by
  refine ⟨fun _ _ _ _ => Call.run_error, ?_⟩
  have h := (accounts_new domain).run calls
  rw [List.nil_append] at h
  obtain ⟨profile, hok, hentered, hsamples⟩ := h.snapshot ho now
  refine ⟨profile, hok, ?_⟩
  intro stack
  have hsub := unreleased_sublist ((NativeHeapTracker.new domain).run calls).1
  refine ⟨?_, ?_⟩
  · rw [Option.isSome_iff_exists]
    constructor
    · rintro ⟨v, hv⟩
      exact ((hsamples stack v).mp hv).1
    · rintro ⟨b, hb, rfl⟩
      exact hentered b hb
  · intro v hv
    obtain ⟨_, hcost, hle⟩ := (hsamples stack v).mp hv
    simp only [HeapValues.cost, Prod.mk.injEq] at hcost
    obtain ⟨h₁, h₂, h₃, h₄⟩ := hcost
    refine ⟨h₁, h₂, h₃, h₄, ?_, ?_, hle⟩
    · rw [UInt64.le_iff_toNat_le, h₁, h₃]
      exact objectCount_le hsub stack
    · rw [UInt64.le_iff_toNat_le, h₂, h₄]
      exact byteSum_le hsub stack

def reusedAddress : List Call :=
  [.allocate 16 8 [default], .allocate 16 24 [default], .release 16, .allocate 16 32 [default]]

theorem run_reusedAddress :
    ((NativeHeapTracker.new "native").run reusedAddress).1 =
      [.allocate 16 8 [default], .release 16, .allocate 16 32 [default]] ∧
    ∀ address : UInt64, ((NativeHeapTracker.new "native").run reusedAddress).2.live[address]? =
      if address = 16 then some (32, 0) else none := by
  have h₁ : (default : HeapValues).checkedAdd (NativeHeapTracker.objectCost 8) =
      .ok ⟨1, 8, 0, 0⟩ := by decide
  have h₂ : (⟨1, 8, 0, 0⟩ : HeapValues).checkedAdd (NativeHeapTracker.objectCost 32) =
      .ok ⟨2, 40, 0, 0⟩ := by decide
  constructor
  · simp [reusedAddress, NativeHeapTracker.run, Call.run, NativeHeapTracker.allocate_run,
      NativeHeapTracker.release_run, NativeHeapTracker.new, NativeHeapTracker.withLive, h₁, h₂]
  · intro address
    by_cases ha : (16 : UInt64) = address
    · subst ha
      simp [reusedAddress, NativeHeapTracker.run, Call.run, NativeHeapTracker.allocate_run,
        NativeHeapTracker.release_run, NativeHeapTracker.new, NativeHeapTracker.withLive, h₁, h₂]
    · simp [reusedAddress, NativeHeapTracker.run, Call.run, NativeHeapTracker.allocate_run,
        NativeHeapTracker.release_run, NativeHeapTracker.new, NativeHeapTracker.withLive, h₁, h₂,
        ha, Ne.symm ha]

theorem snapshot_reads_history_reusedAddress :
    ∃ profile, ((NativeHeapTracker.new "native").run reusedAddress).2.snapshot
        [(16, 32, 0)] 0 = .ok profile ∧
      ∀ v, profile.samples[([default] : Stack)]? = some v →
        v.allocSpace.toNat = 40 ∧ v.inuseSpace.toNat = 32 := by
  obtain ⟨hdone, hlive⟩ := run_reusedAddress
  have ho : Enumerates [((16 : UInt64), (32 : UInt64), 0)]
      ((NativeHeapTracker.new "native").run reusedAddress).2.live := by
    refine ⟨List.nodup_singleton _, ?_⟩
    rintro address ⟨size, id⟩
    rw [hlive]
    by_cases ha : address = 16
    · simp [ha, eq_comm]
    · simp [ha]
  obtain ⟨_, profile, hok, hread⟩ := snapshot_reads_history "native" reusedAddress 0 _ ho
  refine ⟨profile, hok, ?_⟩
  intro v hv
  obtain ⟨_, h₂, _, h₄, _⟩ := (hread _).2 v hv
  rw [h₂, h₄, hdone]
  exact ⟨rfl, rfl⟩

end PProfessor.Heap
