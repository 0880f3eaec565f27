import PProfessor.HeapDomains
import PProfessor.ReportSums

set_option autoImplicit false

/-!
# One heap domain at a time

`select_domain` as it changes the profile in place, and which samples the costs of a report are
sums over afterwards. The domain of an unlabelled sample goes by a text that a label can have.
-/
namespace PProfessor.Heap
open KeyedSum Pprof Report

def unspecified : String := "[unspecified heap]"

/-- `select_domain`: nothing of the profile changes before the last line. -/
def selectDomainMut (requested : Option String) : EStateM DomainError PprofProfile Unit := do
  let profile ← get
  if ¬isHeap profile then
    if requested.isSome then
      throw .notHeap
    return
  let domains := (profile.samples.map (domain profile)).toFinset
  if ¬(domains.card ≤ 1 ∨ requested.isSome) then
    throw (.overlapping (domains.sort (· ≤ ·)))
  match requested with
  | none => return
  | some requested =>
    if requested ∉ domains then
      throw (.unknown requested)
    set { profile with samples := profile.samples.filter fun s => domain profile s = requested }

theorem selectDomainMut_run (requested : Option String) (p : PprofProfile) :
    (selectDomainMut requested).run p = match selectDomain p requested with
      | .ok selected => .ok () selected
      | .error e => .error e p := by
  unfold selectDomainMut selectDomain
  simp only [EStateM.run_bind, EStateM.run_get]
  by_cases hheap : isHeap p = true
  · rw [if_neg (not_not.mpr hheap), if_pos hheap]
    cases requested with
    | none =>
      by_cases hcard : (p.samples.map (domain p)).toFinset.card ≤ 1
      · rw [if_neg (not_not.mpr (.inl hcard)), if_pos hcard]
        rfl
      · rw [if_pos (by simpa using hcard), if_neg hcard]
        rfl
    | some requested =>
      rw [if_neg (not_not.mpr (.inr rfl))]
      by_cases hmem : requested ∈ (p.samples.map (domain p)).toFinset
      · simp only [if_neg (not_not.mpr hmem), if_pos hmem]
        rfl
      · simp only [if_pos hmem, if_neg hmem]
        rfl
  · rw [if_pos hheap, if_neg hheap]
    cases requested with
    | none => rfl
    | some requested => rfl

/-- What the first `heap` label says, if there is one and its text is there. -/
def heapOf (profile : PprofProfile) (sample : Sample) : Option String :=
  (sample.labels.find? fun l => profile.strings.strings[l.key.toNat]? = some "heap").bind
    fun l => profile.strings.strings[l.strIndex.toNat]?

theorem domain_eq_getD (p : PprofProfile) (s : Sample) :
    domain p s = (heapOf p s).getD unspecified := rfl

/-- The samples whose domain is `d`. -/
def samplesOf (p : PprofProfile) (d : Option String) : List Sample :=
  p.samples.filter fun s => heapOf p s = d

/-- A selection leaves the samples of one domain, over which the costs of every report are sums,
or nothing different; it is refused if it would have to choose. -/
structure NeverAdded (p : PprofProfile) (requested : Option String) : Prop where
  selected : ∀ p', (selectDomainMut requested).run p = .ok () p' → ∃ d,
    (∀ s ∈ p'.samples, heapOf p' s = d) ∧ p' = { p with samples := samplesOf p d } ∧
    ∀ sampleType sampleIndex frameOrder stackOrder report,
      sampleIndexOf p' sampleType = .ok sampleIndex →
      Enumerates frameOrder (aggregate p' sampleIndex).stats →
      Enumerates stackOrder (aggregate p' sampleIndex).stackStats →
      fromProfile p' sampleType frameOrder stackOrder = .ok report →
      SumsOver (contributions { p with samples := samplesOf p d } sampleIndex) report
  refused : ∀ e p', (selectDomainMut requested).run p = .error e p' → p' = p
  ambiguous : requested = none → (∃ s ∈ p.samples, ∃ s' ∈ p.samples, heapOf p s ≠ heapOf p s') →
    ∃ e p', (selectDomainMut requested).run p = .error e p'

/-- The selection takes unlabelled samples and ones labelled like them for one domain. -/
structure Collides (p : PprofProfile) (requested : Option String) : Prop where
  unlabelled : ∃ s ∈ p.samples, heapOf p s = none
  labelled : ∃ s ∈ p.samples, heapOf p s = some unspecified
  chosen : requested = some unspecified ∨
    requested = none ∧ ∀ s ∈ p.samples, heapOf p s = none ∨ heapOf p s = some unspecified

variable {p : PprofProfile} {requested : Option String}

theorem getD_eq_iff {d : Option String} {text : String} :
    d.getD unspecified = text ↔ d = some text ∨ d = none ∧ text = unspecified := by
  cases d with
  | none => simp [eq_comm]
  | some other => simp

theorem selectDomainMut_some (hheap : isHeap p = true) (d : String) :
    (selectDomainMut (some d)).run p = if ∃ s ∈ p.samples, domain p s = d then
      .ok () { p with samples := p.samples.filter fun s => domain p s = d }
    else .error (.unknown d) p := by
  have hmem : d ∈ (p.samples.map (domain p)).toFinset ↔ ∃ s ∈ p.samples, domain p s = d := by
    simp
  rw [selectDomainMut_run, selectDomain, if_pos hheap]
  dsimp only
  simp only [hmem]
  split_ifs <;> rfl

theorem selectDomainMut_none (hheap : isHeap p = true) :
    (∃ d, (∀ s ∈ p.samples, domain p s = d) ∧ (selectDomainMut none).run p = .ok () p) ∨
      (∃ s ∈ p.samples, ∃ s' ∈ p.samples, domain p s ≠ domain p s') ∧
        ∃ e, (selectDomainMut none).run p = .error e p := by
  have hcard : (p.samples.map (domain p)).toFinset.card ≤ 1 ↔
      ∀ s ∈ p.samples, ∀ s' ∈ p.samples, domain p s = domain p s' := by
    rw [Finset.card_le_one]
    simp
  rw [selectDomainMut_run, selectDomain, if_pos hheap]
  dsimp only
  by_cases hone : (p.samples.map (domain p)).toFinset.card ≤ 1
  · rw [if_pos hone]
    refine .inl ?_
    cases hsamples : p.samples with
    | nil => exact ⟨"", by simp, rfl⟩
    | cons s rest =>
      refine ⟨domain p s, fun s' hs' => ?_, rfl⟩
      rw [← hsamples] at hs'
      exact hcard.mp hone s' hs' s (hsamples ▸ List.mem_cons_self)
  · rw [if_neg hone]
    refine .inr ⟨?_, _, rfl⟩
    rw [hcard] at hone
    push Not at hone
    exact hone

theorem exists_domain {text : String} (h : text = unspecified →
      ¬((∃ s ∈ p.samples, heapOf p s = none) ∧ ∃ s ∈ p.samples, heapOf p s = some unspecified)) :
    ∃ d, ∀ s ∈ p.samples, domain p s = text ↔ heapOf p s = d := by
  by_cases htext : text = unspecified
  · by_cases hunlabelled : ∃ s ∈ p.samples, heapOf p s = none
    · refine ⟨none, fun s hs => ?_⟩
      rw [domain_eq_getD, getD_eq_iff, and_iff_left htext, or_iff_right]
      exact fun hsome => h htext ⟨hunlabelled, s, hs, htext ▸ hsome⟩
    · refine ⟨some text, fun s hs => ?_⟩
      rw [domain_eq_getD, getD_eq_iff, or_iff_left]
      exact fun hnone => hunlabelled ⟨s, hs, hnone.1⟩
  · refine ⟨some text, fun s _ => ?_⟩
    rw [domain_eq_getD, getD_eq_iff, or_iff_left]
    exact fun hnone => htext hnone.2

theorem Collides.selects (hheap : isHeap p = true) (h : Collides p requested) :
    ∃ p', (selectDomainMut requested).run p = .ok () p' ∧
      (∃ s ∈ p'.samples, heapOf p' s = none) ∧
        ∃ s ∈ p'.samples, heapOf p' s = some unspecified := by
  obtain ⟨s, hs, hnone⟩ := h.unlabelled
  obtain ⟨s', hs', hsome⟩ := h.labelled
  have hdomain : domain p s = unspecified := by
    rw [domain_eq_getD, hnone]
    rfl
  have hdomain' : domain p s' = unspecified := by
    rw [domain_eq_getD, hsome]
    rfl
  rcases h.chosen with rfl | ⟨rfl, hall⟩
  · rw [selectDomainMut_some hheap, if_pos ⟨s, hs, hdomain⟩]
    exact ⟨_, rfl, ⟨s, List.mem_filter.mpr ⟨hs, decide_eq_true hdomain⟩, hnone⟩,
      s', List.mem_filter.mpr ⟨hs', decide_eq_true hdomain'⟩, hsome⟩
  · rcases selectDomainMut_none hheap with ⟨-, -, hok⟩ | ⟨⟨a, ha, b, hb, hne⟩, -⟩
    · exact ⟨p, hok, ⟨s, hs, hnone⟩, s', hs', hsome⟩
    · have hsame (c : Sample) (hc : c ∈ p.samples) : domain p c = unspecified := by
        rw [domain_eq_getD, getD_eq_iff]
        exact (hall c hc).symm.imp_right fun hnone => ⟨hnone, rfl⟩
      exact absurd ((hsame a ha).trans (hsame b hb).symm) hne

theorem selectDomainMut_error {e : DomainError} {p' : PprofProfile}
    (h : (selectDomainMut requested).run p = .error e p') : p' = p := by
  rw [selectDomainMut_run] at h
  cases hselected : selectDomain p requested with
  | ok selected =>
    rw [hselected] at h
    cases h
  | error error =>
    rw [hselected] at h
    cases h
    rfl

theorem selectDomainMut_ok (hheap : isHeap p = true) {p' : PprofProfile}
    (h : (selectDomainMut requested).run p = .ok () p') : ∃ text,
      p' = { p with samples := p.samples.filter fun s => domain p s = text } ∧
      (requested = some text ∨ requested = none ∧ ∀ s ∈ p.samples, domain p s = text) := by
  cases requested with
  | none =>
    rcases selectDomainMut_none hheap with ⟨text, hall, hok⟩ | ⟨-, e, herror⟩
    · rw [hok] at h
      cases h
      refine ⟨text, ?_, .inr ⟨rfl, hall⟩⟩
      rw [List.filter_eq_self.mpr fun s hs => decide_eq_true (hall s hs)]
    · rw [herror] at h
      cases h
  | some text =>
    rw [selectDomainMut_some hheap] at h
    split_ifs at h
    cases h
    exact ⟨text, rfl, .inl rfl⟩

theorem not_both_of_not_collides (h : ¬Collides p requested) {text : String}
    (hchosen : requested = some text ∨ requested = none ∧ ∀ s ∈ p.samples, domain p s = text) :
    text = unspecified →
      ¬((∃ s ∈ p.samples, heapOf p s = none) ∧ ∃ s ∈ p.samples, heapOf p s = some unspecified) := by
  rintro rfl ⟨hunlabelled, hlabelled⟩
  refine h ⟨hunlabelled, hlabelled, hchosen.imp_right fun ⟨hnone, hall⟩ => ⟨hnone, ?_⟩⟩
  intro s hs
  have hdomain := hall s hs
  rw [domain_eq_getD, getD_eq_iff] at hdomain
  exact hdomain.symm.imp_left And.left

theorem neverAdded_of_not_collides (hheap : isHeap p = true) (h : ¬Collides p requested) :
    NeverAdded p requested := by
  refine ⟨fun p' hok => ?_, fun e p' herror => selectDomainMut_error herror, ?_⟩
  · obtain ⟨text, rfl, hchosen⟩ := selectDomainMut_ok hheap hok
    obtain ⟨d, hd⟩ := exists_domain (not_both_of_not_collides h hchosen)
    have hsamples : (p.samples.filter fun s => domain p s = text) = samplesOf p d :=
      List.filter_congr fun s hs => decide_eq_decide.mpr (hd s hs)
    rw [hsamples]
    refine ⟨d, fun s hs => of_decide_eq_true (List.mem_filter.mp hs).2, rfl, ?_⟩
    intro sampleType sampleIndex frameOrder stackOrder report hindex hframes hranked hreport
    exact fromProfile_sums hindex hframes hranked hreport
  · rintro rfl ⟨s, hs, s', hs', hne⟩
    rcases selectDomainMut_none hheap with ⟨text, hall, -⟩ | ⟨-, e, herror⟩
    · obtain ⟨d, hd⟩ := exists_domain (not_both_of_not_collides h (.inr ⟨rfl, hall⟩))
      exact absurd (((hd s hs).mp (hall s hs)).trans ((hd s' hs').mp (hall s' hs')).symm) hne
    · exact ⟨e, p, herror⟩

/-- Heap domains are never added, exactly where the text that stands for unlabelled samples does
not collide with a label. -/
theorem neverAdded_iff (p : PprofProfile) (requested : Option String) (hheap : isHeap p = true) :
    NeverAdded p requested ↔ ¬Collides p requested := by
  refine ⟨fun h hcollides => ?_, neverAdded_of_not_collides hheap⟩
  obtain ⟨p', hok, ⟨s, hs, hnone⟩, s', hs', hsome⟩ := hcollides.selects hheap
  obtain ⟨d, hsame, -⟩ := h.selected p' hok
  have heq := (hsame s hs).trans (hsame s' hs').symm
  rw [hnone, hsome] at heq
  cases heq

def twoHeaps (label : String) : PprofProfile :=
  { PprofProfile.withStrings (.ofStrings ["", "inuse_space", "bytes", "heap", label]) with
    valueTypes := [⟨1, 2⟩]
    samples := [⟨[], [64], []⟩, ⟨[], [40], [⟨3, 4, 0, 0⟩]⟩] }

theorem neverAdded_iff_twoHeaps :
    NeverAdded (twoHeaps "v8") none ↔ ¬Collides (twoHeaps "v8") none :=
  neverAdded_iff (twoHeaps "v8") none rfl

/-- Nothing needs to be requested, and the report adds 64 bytes and 40 bytes up. -/
theorem lookalike_label_added : isHeap (twoHeaps unspecified) = true ∧
    (selectDomainMut none).run (twoHeaps unspecified) = .ok () (twoHeaps unspecified) ∧
    (aggregate (twoHeaps unspecified) 0).totalValue = 104 ∧
    ¬NeverAdded (twoHeaps unspecified) none := by
  have hcollides : Collides (twoHeaps unspecified) none :=
    ⟨⟨_, List.mem_cons_self, rfl⟩, ⟨_, List.mem_cons_of_mem _ List.mem_cons_self, rfl⟩,
      .inr ⟨rfl, by decide⟩⟩
  refine ⟨rfl, rfl, ?_, fun h => ?_⟩
  · rw [aggregate_eq]
    rfl
  · obtain ⟨s, hs, s', hs', hne⟩ : ∃ s ∈ (twoHeaps unspecified).samples,
        ∃ s' ∈ (twoHeaps unspecified).samples,
          heapOf (twoHeaps unspecified) s ≠ heapOf (twoHeaps unspecified) s' :=
      ⟨_, List.mem_cons_self, _, List.mem_cons_of_mem _ List.mem_cons_self, nofun⟩
    obtain ⟨e, p', herror⟩ := h.ambiguous rfl ⟨s, hs, s', hs', hne⟩
    cases herror

end PProfessor.Heap
