import PProfessor.HeapCalls

set_option autoImplicit false

/-!
# Samples added to a heap profile

Any sequence of `add_sample` calls, failed ones included, leaves under each stack
the sums of the calls that succeeded. Where none fails their order is
immaterial.
-/
namespace PProfessor.Heap
open KeyedSum

theorem getElem?_insert_eq {κ β : Type} [Ord κ] [Std.TransOrd κ] [Std.LawfulEqOrd κ]
    [DecidableEq κ] (m : Std.ExtTreeMap κ β) (k k' : κ) (v : β) :
    (m.insert k v)[k']? = if k = k' then some v else m[k']? := by
  rw [Std.ExtTreeMap.getElem?_insert]
  simp only [Std.compare_eq_iff_eq]

abbrev AddCall := Stack × HeapValues

/-- Make the calls in order, going on after a failed one. The list that comes
back holds the calls that succeeded. -/
def HeapProfile.addAll (profile : HeapProfile) : List AddCall → List AddCall × HeapProfile
  | [] => ([], profile)
  | call :: calls =>
    match profile.addSample call.1 call.2 with
    | .ok profile' => (call :: (profile'.addAll calls).1, (profile'.addAll calls).2)
    | .error _ => profile.addAll calls

def costOf (calls : List AddCall) (stack : Stack) : Cost :=
  total Prod.fst (fun call : AddCall => call.2.cost) calls stack

def HeapProfile.costAt (profile : HeapProfile) (stack : Stack) : Cost :=
  (profile.samples[stack]?.getD default).cost

theorem HeapProfile.addSample_ok {profile profile' : HeapProfile} {stack : Stack}
    {values : HeapValues} (h : profile.addSample stack values = .ok profile') :
    stack ≠ [] ∧ ∃ sum, sum.cost = profile.costAt stack + values.cost ∧ sum.cost ≤ costLimit ∧
      profile' = { profile with samples := profile.samples.insert stack sum } := by
  unfold addSample at h
  split_ifs at h with hs
  cases hsum : (profile.samples[stack]?.getD default).checkedAdd values with
  | error e => simp [hsum, bind, Except.bind] at h
  | ok sum =>
    simp only [hsum, bind, Except.bind, Except.ok.injEq] at h
    obtain ⟨hcost, hle⟩ := HeapValues.checkedAdd_ok hsum
    exact ⟨hs, sum, hcost, hle, h.symm⟩

theorem HeapProfile.addSample_of_le {profile : HeapProfile} {stack : Stack} {values : HeapValues}
    (hs : stack ≠ []) (hle : profile.costAt stack + values.cost ≤ costLimit) :
    ∃ profile', profile.addSample stack values = .ok profile' := by
  obtain ⟨sum, hsum, -⟩ := HeapValues.checkedAdd_of_le hle
  refine ⟨{ profile with samples := profile.samples.insert stack sum }, ?_⟩
  rw [addSample, if_neg hs, hsum]
  rfl

/-- What the profile holds after the calls of `done`. -/
structure Entered (profile : HeapProfile) (done : List AddCall) : Prop where
  nonempty : ∀ call ∈ done, call.1 ≠ []
  mem : ∀ stack, stack ∈ profile.samples ↔ ∃ call ∈ done, call.1 = stack
  cost : ∀ stack, profile.costAt stack = costOf done stack
  le : ∀ stack, profile.costAt stack ≤ costLimit

theorem entered_new (domain : String) (now : ℤ) : Entered (.new domain now) [] := by
  refine ⟨by simp, ?_, ?_, ?_⟩
  · simp [HeapProfile.new]
  · intro stack
    simp [HeapProfile.costAt, HeapProfile.new, costOf]
    rfl
  · intro stack
    simp only [HeapProfile.costAt, HeapProfile.new, Std.ExtTreeMap.getElem?_empty]
    exact ⟨Nat.zero_le _, Nat.zero_le _, Nat.zero_le _, Nat.zero_le _⟩

theorem Entered.addSample {profile profile' : HeapProfile} {done : List AddCall}
    (h : Entered profile done) {call : AddCall}
    (hcall : profile.addSample call.1 call.2 = .ok profile') :
    Entered profile' (done ++ [call]) := by
  obtain ⟨hs, sum, hsum, hle, rfl⟩ := HeapProfile.addSample_ok hcall
  have hat (stack : Stack) : HeapProfile.costAt
      { profile with samples := profile.samples.insert call.1 sum } stack =
        if call.1 = stack then sum.cost else profile.costAt stack := by
    rw [HeapProfile.costAt, getElem?_insert_eq]
    split_ifs with he <;> rfl
  refine ⟨?_, ?_, ?_, ?_⟩
  · simp only [List.forall_mem_append, List.forall_mem_singleton]
    exact ⟨h.nonempty, hs⟩
  · intro stack
    simp only [Std.ExtTreeMap.mem_insert, Std.compare_eq_iff_eq, h.mem, List.mem_append,
      List.mem_singleton, or_and_right, exists_or, exists_eq_left]
    exact or_comm
  · intro stack
    have hlast : costOf (done ++ [call]) stack =
        costOf done stack + if call.1 = stack then call.2.cost else 0 := by
      rw [costOf, total_append, total_cons, total_nil, add_zero]
      rfl
    rw [hat, hlast, ← h.cost]
    split_ifs with he
    · rw [hsum, he]
    · rw [add_zero]
  · intro stack
    rw [hat]
    split_ifs
    · exact hle
    · exact h.le stack

theorem Entered.addAll {profile : HeapProfile} {done : List AddCall} (h : Entered profile done)
    (calls : List AddCall) :
    Entered (profile.addAll calls).2 (done ++ (profile.addAll calls).1) := by
  induction calls generalizing profile done with
  | nil => simpa [HeapProfile.addAll] using h
  | cons call calls ih =>
    unfold HeapProfile.addAll
    cases hcall : profile.addSample call.1 call.2 with
    | error e => exact ih h
    | ok profile' =>
      have hnext := ih (h.addSample hcall)
      rwa [List.append_assoc, List.singleton_append] at hnext

theorem HeapProfile.addAll_header (profile : HeapProfile) (calls : List AddCall) :
    (profile.addAll calls).2 = { profile with samples := (profile.addAll calls).2.samples } := by
  induction calls generalizing profile with
  | nil => rfl
  | cons call calls ih =>
    unfold addAll
    cases hcall : profile.addSample call.1 call.2 with
    | error e => exact ih profile
    | ok profile' =>
      obtain ⟨-, sum, -, -, rfl⟩ := addSample_ok hcall
      exact ih _

theorem Entered.addAll_accepts {profile : HeapProfile} {done : List AddCall}
    (h : Entered profile done) {calls : List AddCall} (hne : ∀ call ∈ calls, call.1 ≠ [])
    (hle : ∀ stack, costOf (done ++ calls) stack ≤ costLimit) :
    (profile.addAll calls).1 = calls := by
  induction calls generalizing profile done with
  | nil => rfl
  | cons call calls ih =>
    rw [List.forall_mem_cons] at hne
    have hlimit : profile.costAt call.1 + call.2.cost ≤ costLimit := by
      have hsum := hle call.1
      rw [costOf, total_append, total_cons_eq _ _ rfl, ← add_assoc] at hsum
      rw [h.cost]
      exact le_self_add.trans hsum
    obtain ⟨profile', hcall⟩ := HeapProfile.addSample_of_le hne.1 hlimit
    have hrest := ih (h.addSample hcall) hne.2 (by simpa using hle)
    rw [HeapProfile.addAll, hcall]
    change call :: (profile'.addAll calls).1 = call :: calls
    rw [hrest]

theorem Entered.samples_eq {profile profile' : HeapProfile} {done done' : List AddCall}
    (h : Entered profile done) (h' : Entered profile' done') (hp : done.Perm done') :
    profile.samples = profile'.samples := by
  apply Std.ExtTreeMap.ext_getElem?
  intro stack
  have hmem : stack ∈ profile.samples ↔ stack ∈ profile'.samples := by
    rw [h.mem, h'.mem]
    simp only [hp.mem_iff]
  have hcost : profile.costAt stack = profile'.costAt stack := by
    rw [h.cost, h'.cost, costOf, costOf, total_perm _ _ hp]
  rw [Std.ExtTreeMap.mem_iff_isSome_getElem?, Std.ExtTreeMap.mem_iff_isSome_getElem?] at hmem
  rw [HeapProfile.costAt, HeapProfile.costAt] at hcost
  have hvalues := cost_injective hcost
  cases hv : profile.samples[stack]? with
  | none =>
    cases hv' : profile'.samples[stack]? with
    | none => rfl
    | some v' => simp [hv, hv'] at hmem
  | some v =>
    cases hv' : profile'.samples[stack]? with
    | none => simp [hv, hv'] at hmem
    | some v' =>
      rw [hv, hv'] at hvalues
      exact congrArg some hvalues

theorem addAll_perm (domain : String) (now : ℤ) {calls calls' : List AddCall}
    (hp : calls.Perm calls') (hall : ((HeapProfile.new domain now).addAll calls).1 = calls) :
    ((HeapProfile.new domain now).addAll calls').1 = calls' ∧
      ((HeapProfile.new domain now).addAll calls').2 =
        ((HeapProfile.new domain now).addAll calls).2 := by
  have h := (entered_new domain now).addAll calls
  rw [hall, List.nil_append] at h
  have hall' : ((HeapProfile.new domain now).addAll calls').1 = calls' := by
    apply (entered_new domain now).addAll_accepts
    · intro call hcall
      exact h.nonempty call (hp.mem_iff.mpr hcall)
    · intro stack
      rw [List.nil_append, costOf, ← total_perm _ _ hp]
      have hle := h.le stack
      rwa [h.cost] at hle
  have h' := (entered_new domain now).addAll calls'
  rw [hall', List.nil_append] at h'
  refine ⟨hall', ?_⟩
  rw [HeapProfile.addAll_header, HeapProfile.addAll_header _ calls, h'.samples_eq h hp.symm]

end PProfessor.Heap
