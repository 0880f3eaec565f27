import Mathlib.Algebra.Order.Monoid.Prod
import PProfessor.HeapTracker

set_option autoImplicit false

/-!
# What the tracker's methods do

One lemma for each method: the outcomes of `allocate` and `release`, what a
checked sum is, and what the two loops of `snapshot` compute.
-/
namespace PProfessor.Heap
open CheckedArith KeyedSum

namespace NativeHeapTracker

theorem ensure_bind {α : Type} (p : Prop) [Decidable p] (e : HeapError) (k : Unit → HeapM α)
    (t : NativeHeapTracker) :
    (ensure p e >>= k) t = if p then k () t else .error e t := by
  unfold ensure
  split_ifs <;> rfl

theorem get_bind {α : Type} (k : NativeHeapTracker → HeapM α) (t : NativeHeapTracker) :
    (get >>= k) t = k t t := rfl

theorem modify_bind {α : Type} (f : NativeHeapTracker → NativeHeapTracker) (k : Unit → HeapM α)
    (t : NativeHeapTracker) : ((modify f : HeapM Unit) >>= k) t = k () (f t) := rfl

theorem lift_bind {α β : Type} (x : Except HeapError α) (k : α → HeapM β) (t : NativeHeapTracker) :
    (lift x >>= k) t = match x with
      | .ok a => k a t
      | .error e => .error e t := by
  cases x <;> rfl

theorem stackAt_bind {β : Type} (id : ℕ) (k : Stack × HeapValues → HeapM β)
    (t : NativeHeapTracker) :
    (stackAt id >>= k) t = match t.stackValues[id]? with
      | some entry => k entry t
      | none => .error .panic t := by
  unfold stackAt
  rw [bind_assoc, get_bind]
  cases t.stackValues[id]? <;> rfl

def objectCost (size : UInt64) : HeapValues :=
  { (default : HeapValues) with allocObjects := 1, allocSpace := size }

def withLive (t : NativeHeapTracker) (address size : UInt64) (id : ℕ) : NativeHeapTracker :=
  { t with live := t.live.insert address (size, id) }

/-- Every check of `allocate` comes before its first update. -/
theorem allocate_run (address size : UInt64) (stack : Stack) (t : NativeHeapTracker) :
    allocate address size stack t =
      if address = 0 then .error .nullAllocation t
      else if stack = [] then .error .emptyStack t
      else if t.live[address]? ≠ none then .error (.duplicateLive address) t
      else match t.stackIds[stack]? with
        | some id =>
          match t.stackValues[id]? with
          | none => .error .panic t
          | some entry =>
            match entry.2.checkedAdd (objectCost size) with
            | .error e => .error e t
            | .ok sum =>
              .ok () ({ t with stackValues := t.stackValues.set id (entry.1, sum) }.withLive
                address size id)
        | none =>
          match (default : HeapValues).checkedAdd (objectCost size) with
          | .error e => .error e t
          | .ok sum =>
            .ok () ({ t with
                stackIds := t.stackIds.insert stack t.stackValues.length
                stackValues := t.stackValues ++ [(stack, sum)] }.withLive
              address size t.stackValues.length) := by
  have hc : { (default : HeapValues) with allocObjects := 1, allocSpace := size } =
      objectCost size := rfl
  unfold allocate
  rw [ensure_bind]
  by_cases ha : address = 0
  · rw [if_neg (not_not.mpr ha), if_pos ha]
  rw [if_pos ha, if_neg ha, ensure_bind]
  by_cases hs : stack = []
  · rw [if_neg (not_not.mpr hs), if_pos hs]
  rw [if_pos hs, if_neg hs, get_bind, ensure_bind]
  by_cases hl : t.live[address]? = none
  · rw [if_pos hl, if_neg (not_not.mpr hl), bind_assoc, get_bind]
    cases t.stackIds[stack]? with
    | some id =>
      simp only [bind_assoc, stackAt_bind]
      cases t.stackValues[id]? with
      | none => rfl
      | some entry =>
        simp only [lift_bind]
        rw [hc]
        cases entry.2.checkedAdd (objectCost size) <;> rfl
    | none =>
      simp only [bind_assoc, lift_bind]
      rw [hc]
      cases (default : HeapValues).checkedAdd (objectCost size) <;> rfl
  · rw [if_neg hl, if_pos hl]

theorem allocate_error {address size : UInt64} {stack : Stack} {t t' : NativeHeapTracker}
    {e : HeapError} (h : allocate address size stack t = .error e t') : t' = t := by
  rw [allocate_run] at h
  split_ifs at h
  · cases h
    rfl
  · cases h
    rfl
  · cases h
    rfl
  · split at h
    · split at h
      · cases h
        rfl
      · split at h
        · cases h
          rfl
        · cases h
    · split at h
      · cases h
        rfl
      · cases h

/-- A successful `allocate` either adds to a known stack or registers a new one. -/
theorem allocate_ok {address size : UInt64} {stack : Stack} {t t' : NativeHeapTracker}
    (h : allocate address size stack t = .ok () t') :
    address ≠ 0 ∧ stack ≠ [] ∧ t.live[address]? = none ∧
      ((∃ id entry sum, t.stackIds[stack]? = some id ∧ t.stackValues[id]? = some entry ∧
          entry.2.checkedAdd (objectCost size) = .ok sum ∧
          t' = { t with stackValues := t.stackValues.set id (entry.1, sum) }.withLive
            address size id) ∨
        ∃ sum, t.stackIds[stack]? = none ∧
          (default : HeapValues).checkedAdd (objectCost size) = .ok sum ∧
          t' = { t with
              stackIds := t.stackIds.insert stack t.stackValues.length
              stackValues := t.stackValues ++ [(stack, sum)] }.withLive
            address size t.stackValues.length) := by
  rw [allocate_run] at h
  split_ifs at h with ha hs hl
  refine ⟨ha, hs, not_not.mp hl, ?_⟩
  cases hid : t.stackIds[stack]? with
  | some id =>
    rw [hid] at h
    cases hentry : t.stackValues[id]? with
    | none =>
      simp only [hentry] at h
      cases h
    | some entry =>
      cases hsum : entry.2.checkedAdd (objectCost size) with
      | error e =>
        simp only [hentry, hsum] at h
        cases h
      | ok sum =>
        simp only [hentry, hsum] at h
        cases h
        exact .inl ⟨id, entry, sum, rfl, hentry, hsum, rfl⟩
  | none =>
    rw [hid] at h
    cases hsum : (default : HeapValues).checkedAdd (objectCost size) with
    | error e =>
      simp only [hsum] at h
      cases h
    | ok sum =>
      simp only [hsum] at h
      cases h
      exact .inr ⟨sum, rfl, rfl, rfl⟩

theorem release_run (address : UInt64) (t : NativeHeapTracker) :
    release address t =
      if address = 0 then .ok () t
      else if t.live[address]? = none then
        .error (.freeWithoutHistory address) { t with live := t.live.erase address }
      else .ok () { t with live := t.live.erase address } := by
  unfold release
  by_cases ha : address = 0
  · rw [if_pos ha, if_pos ha]
    rfl
  rw [if_neg ha, if_neg ha, get_bind, modify_bind]
  unfold ensure
  by_cases hl : t.live[address]? = none
  · rw [if_neg (not_not.mpr hl), if_pos hl]
    rfl
  · rw [if_pos hl, if_neg hl]
    rfl

/-- The failed `remove` had nothing to remove. -/
theorem release_error {address : UInt64} {t t' : NativeHeapTracker} {e : HeapError}
    (h : release address t = .error e t') : t' = t ∧ t.live[address]? = none := by
  rw [release_run] at h
  split_ifs at h with ha hl
  cases h
  have he : t.live.erase address = t.live := by
    apply Std.ExtHashMap.ext_getElem?
    intro a
    rw [Std.ExtHashMap.getElem?_erase]
    split_ifs with hk
    · rw [← beq_iff_eq.mp hk, hl]
    · rfl
  rw [he]
  exact ⟨rfl, hl⟩

theorem release_ok {address : UInt64} {t t' : NativeHeapTracker}
    (h : release address t = .ok () t') :
    t'.stackIds = t.stackIds ∧ t'.stackValues = t.stackValues ∧
      ((address = 0 ∧ t' = t) ∨ (address ≠ 0 ∧ t'.live = t.live.erase address)) := by
  rw [release_run] at h
  split_ifs at h with ha hl
  · cases h
    exact ⟨rfl, rfl, .inl ⟨ha, rfl⟩⟩
  · cases h
    exact ⟨rfl, rfl, .inr ⟨ha, rfl⟩⟩

end NativeHeapTracker

abbrev Cost := ℕ × ℕ × ℕ × ℕ

def HeapValues.cost (v : HeapValues) : Cost :=
  (v.allocObjects.toNat, v.allocSpace.toNat, v.inuseObjects.toNat, v.inuseSpace.toNat)

/-- `i64::MAX` in every metric. -/
def costLimit : Cost := (2 ^ 63 - 1, 2 ^ 63 - 1, 2 ^ 63 - 1, 2 ^ 63 - 1)

theorem addMetric_eq_ok_iff (a b c : UInt64) :
    addMetric a b = .ok c ↔ c.toNat = a.toNat + b.toNat ∧ c.toNat ≤ 2 ^ 63 - 1 := by
  have hmax : ∀ v : UInt64, v ≤ 0x7FFFFFFFFFFFFFFF ↔ v.toNat ≤ 2 ^ 63 - 1 := fun v => Iff.rfl
  unfold addMetric
  cases hs : addU64 a b with
  | none =>
    have hn : ¬c.toNat = a.toNat + b.toNat := by
      intro h
      rw [(addU64_eq_some_iff a b c).mpr h] at hs
      cases hs
    simp [hn]
  | some v =>
    have hv := (addU64_eq_some_iff a b v).mp hs
    by_cases hle : v ≤ 0x7FFFFFFFFFFFFFFF
    · simp only [Option.filter_some, hle, decide_true, ↓reduceIte, Except.ok.injEq, ← hv]
      constructor
      · rintro rfl
        exact ⟨rfl, (hmax v).mp hle⟩
      · rintro ⟨h, _⟩
        exact (UInt64.toNat_inj.mp h).symm
    · simp only [Option.filter_some, hle, decide_false, Bool.false_eq_true, ↓reduceIte,
        reduceCtorEq, false_iff, ← hv]
      rintro ⟨h, hc⟩
      rw [h] at hc
      exact hle ((hmax v).mpr hc)

theorem HeapValues.checkedAdd_ok {a b c : HeapValues} (h : a.checkedAdd b = .ok c) :
    c.cost = a.cost + b.cost ∧ c.cost ≤ costLimit := by
  unfold HeapValues.checkedAdd at h
  cases h₁ : addMetric a.allocObjects b.allocObjects with
  | error e => simp [h₁, bind, Except.bind] at h
  | ok v₁ =>
  cases h₂ : addMetric a.allocSpace b.allocSpace with
  | error e => simp [h₁, h₂, bind, Except.bind] at h
  | ok v₂ =>
  cases h₃ : addMetric a.inuseObjects b.inuseObjects with
  | error e => simp [h₁, h₂, h₃, bind, Except.bind] at h
  | ok v₃ =>
  cases h₄ : addMetric a.inuseSpace b.inuseSpace with
  | error e => simp [h₁, h₂, h₃, h₄, bind, Except.bind] at h
  | ok v₄ =>
  simp only [h₁, h₂, h₃, h₄, bind, Except.bind, Except.ok.injEq] at h
  subst h
  obtain ⟨e₁, l₁⟩ := (addMetric_eq_ok_iff _ _ _).mp h₁
  obtain ⟨e₂, l₂⟩ := (addMetric_eq_ok_iff _ _ _).mp h₂
  obtain ⟨e₃, l₃⟩ := (addMetric_eq_ok_iff _ _ _).mp h₃
  obtain ⟨e₄, l₄⟩ := (addMetric_eq_ok_iff _ _ _).mp h₄
  refine ⟨?_, l₁, l₂, l₃, l₄⟩
  simp only [cost, e₁, e₂, e₃, e₄]
  rfl

theorem addMetric_error {a b : UInt64} {e : HeapError} (h : addMetric a b = .error e) :
    e = .valueRange := by
  unfold addMetric at h
  split at h
  · cases h
  · cases h
    rfl

theorem HeapValues.checkedAdd_error {a b : HeapValues} {e : HeapError}
    (h : a.checkedAdd b = .error e) : e = .valueRange := by
  unfold HeapValues.checkedAdd at h
  cases h₁ : addMetric a.allocObjects b.allocObjects with
  | error e₁ =>
    simp only [h₁, bind, Except.bind, Except.error.injEq] at h
    rw [← h, addMetric_error h₁]
  | ok v₁ =>
  cases h₂ : addMetric a.allocSpace b.allocSpace with
  | error e₂ =>
    simp only [h₁, h₂, bind, Except.bind, Except.error.injEq] at h
    rw [← h, addMetric_error h₂]
  | ok v₂ =>
  cases h₃ : addMetric a.inuseObjects b.inuseObjects with
  | error e₃ =>
    simp only [h₁, h₂, h₃, bind, Except.bind, Except.error.injEq] at h
    rw [← h, addMetric_error h₃]
  | ok v₃ =>
  cases h₄ : addMetric a.inuseSpace b.inuseSpace with
  | error e₄ =>
    simp only [h₁, h₂, h₃, h₄, bind, Except.bind, Except.error.injEq] at h
    rw [← h, addMetric_error h₄]
  | ok v₄ => simp [h₁, h₂, h₃, h₄, bind, Except.bind] at h

theorem HeapValues.checkedAdd_of_le {a b : HeapValues} (h : a.cost + b.cost ≤ costLimit) :
    ∃ c, a.checkedAdd b = .ok c ∧ c.cost = a.cost + b.cost := by
  have hmetric : ∀ x y : UInt64, x.toNat + y.toNat ≤ 2 ^ 63 - 1 →
      addMetric x y = .ok (x + y) := by
    intro x y hxy
    have hs : (x + y).toNat = x.toNat + y.toNat := by
      rw [UInt64.toNat_add, Nat.mod_eq_of_lt]
      omega
    exact (addMetric_eq_ok_iff x y (x + y)).mpr ⟨hs, by omega⟩
  obtain ⟨h₁, h₂, h₃, h₄⟩ := h
  have hok : a.checkedAdd b = .ok ⟨a.allocObjects + b.allocObjects, a.allocSpace + b.allocSpace,
      a.inuseObjects + b.inuseObjects, a.inuseSpace + b.inuseSpace⟩ := by
    unfold HeapValues.checkedAdd
    rw [hmetric _ _ h₁, hmetric _ _ h₂, hmetric _ _ h₃, hmetric _ _ h₄]
    rfl
  exact ⟨_, hok, (HeapValues.checkedAdd_ok hok).1⟩

theorem cost_injective : Function.Injective HeapValues.cost := by
  intro a b h
  simp only [HeapValues.cost, Prod.mk.injEq, UInt64.toNat_inj] at h
  obtain ⟨h₁, h₂, h₃, h₄⟩ := h
  cases a
  cases b
  simp_all

def liveCost (entry : UInt64 × UInt64 × ℕ) : Cost := (0, 0, 1, entry.2.1.toNat)

def liveId (entry : UInt64 × UInt64 × ℕ) : ℕ := entry.2.2

/-- Charging adds to every stack the cost of its live allocations, and cannot
fail while these sums are within the limit. -/
theorem chargeLive_ok (order : List (UInt64 × UInt64 × ℕ)) (values : List HeapValues)
    (hid : ∀ entry ∈ order, liveId entry < values.length)
    (hle : ∀ id v, values[id]? = some v → v.cost + total liveId liveCost order id ≤ costLimit) :
    ∃ charged, NativeHeapTracker.chargeLive values order = .ok charged ∧
      charged.map HeapValues.cost =
        values.mapIdx fun id v => v.cost + total liveId liveCost order id := by
  induction order generalizing values with
  | nil =>
    refine ⟨values, rfl, ?_⟩
    simp only [total_nil, add_zero]
    apply List.ext_getElem?
    intro j
    rw [List.getElem?_map, List.getElem?_mapIdx]
  | cons entry rest ih =>
    obtain ⟨address, size, id⟩ := entry
    have hlt : id < values.length := hid _ List.mem_cons_self
    have hv : values[id]? = some values[id] := List.getElem?_eq_getElem hlt
    have htotal : total liveId liveCost ((address, size, id) :: rest) id =
        (0, 0, 1, size.toNat) + total liveId liveCost rest id :=
      total_cons_eq liveId liveCost rfl rest
    have hother : ∀ j, j ≠ id → total liveId liveCost ((address, size, id) :: rest) j =
        total liveId liveCost rest j := by
      intro j hj
      apply total_cons_ne
      exact hj.symm
    have hcap := hle id _ hv
    rw [htotal, ← add_assoc] at hcap
    obtain ⟨sum, hsum, hcost⟩ := @HeapValues.checkedAdd_of_le values[id]
      { (default : HeapValues) with inuseObjects := 1, inuseSpace := size }
      (le_self_add.trans hcap)
    have hcost' : sum.cost = values[id].cost + (0, 0, 1, size.toNat) := hcost
    obtain ⟨charged, hok, hmap⟩ := ih (values.set id sum)
      (by
        intro e he
        rw [List.length_set]
        exact hid e (List.mem_cons_of_mem _ he))
      (by
        intro j v hj
        by_cases hji : j = id
        · subst hji
          rw [List.getElem?_set_self hlt] at hj
          cases hj
          rwa [hcost']
        · rw [List.getElem?_set_ne (Ne.symm hji)] at hj
          have h := hle j v hj
          rwa [hother j hji] at h)
    refine ⟨charged, ?_, ?_⟩
    · simp only [NativeHeapTracker.chargeLive, hv, hsum, bind, Except.bind]
      exact hok
    · rw [hmap]
      apply List.ext_getElem?
      intro j
      rw [List.getElem?_mapIdx, List.getElem?_mapIdx]
      by_cases hji : j = id
      · subst hji
        rw [List.getElem?_set_self hlt, hv, Option.map_some, Option.map_some, htotal, hcost',
          add_assoc]
      · rw [List.getElem?_set_ne (Ne.symm hji), hother j hji]

theorem default_checkedAdd {v : HeapValues} (h : v.cost ≤ costLimit) :
    (default : HeapValues).checkedAdd v = .ok v := by
  have hzero : (default : HeapValues).cost + v.cost = v.cost := zero_add v.cost
  obtain ⟨c, hok, hc⟩ := @HeapValues.checkedAdd_of_le default v (by rwa [hzero])
  rw [hzero] at hc
  rw [hok, cost_injective hc]

/-- Distinct new stacks are entered with their own values. -/
theorem addSamples_ok (entries : List (Stack × HeapValues)) (profile : HeapProfile)
    (hne : ∀ e ∈ entries, e.1 ≠ []) (hnodup : (entries.map Prod.fst).Nodup)
    (hnew : ∀ e ∈ entries, profile.samples[e.1]? = none)
    (hle : ∀ e ∈ entries, e.2.cost ≤ costLimit) :
    ∃ result, NativeHeapTracker.addSamples profile entries = .ok result ∧
      ∀ stack v, result.samples[stack]? = some v ↔
        profile.samples[stack]? = some v ∨ (stack, v) ∈ entries := by
  induction entries generalizing profile with
  | nil => exact ⟨profile, rfl, by simp⟩
  | cons entry rest ih =>
    obtain ⟨stack, values⟩ := entry
    have hs : stack ≠ [] := hne _ List.mem_cons_self
    have hn : profile.samples[stack]? = none := hnew _ List.mem_cons_self
    obtain ⟨hhead, htail⟩ := List.nodup_cons.mp hnodup
    have hadd : profile.addSample stack values =
        .ok { profile with samples := profile.samples.insert stack values } := by
      rw [HeapProfile.addSample, if_neg hs, hn, Option.getD_none,
        default_checkedAdd (hle _ List.mem_cons_self)]
      rfl
    obtain ⟨result, hok, hmem⟩ := ih { profile with samples := profile.samples.insert stack values }
      (fun e he => hne e (List.mem_cons_of_mem _ he)) htail
      (by
        intro e he
        have hes : stack ≠ e.1 := by
          intro h
          exact hhead (List.mem_map.mpr ⟨e, he, h.symm⟩)
        rw [Std.ExtTreeMap.getElem?_insert, if_neg (by simpa using hes)]
        exact hnew e (List.mem_cons_of_mem _ he))
      (fun e he => hle e (List.mem_cons_of_mem _ he))
    refine ⟨result, ?_, ?_⟩
    · simp only [NativeHeapTracker.addSamples, hadd, bind, Except.bind]
      exact hok
    · intro st v
      rw [hmem, Std.ExtTreeMap.getElem?_insert, List.mem_cons, Prod.mk.injEq]
      by_cases hst : stack = st
      · subst hst
        simp [hn, eq_comm]
      · simp [hst, Ne.symm hst]

end PProfessor.Heap
