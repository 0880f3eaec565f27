import PProfessor.SessionOrder

set_option autoImplicit false

/-!
# What a session's accumulator counts

The frames a session applies since its last checkpoint add up in its accumulator: what it counts
for a stack is what they count one by one, so no more than the last snapshot that was sent.
-/
namespace PProfessor.Network
open Capture CheckedArith Columns Coordinator Fallible KeyedSum Kit Kit.LiveProfileAccumulator
  LiveView Publishing SessionStream

def profileCount (canon : String → String) (d : DecodedProfile) (key : StackKey) : ℤ :=
  total (fun s => keyOf canon (sampleView canon d s)) (fun s => cell s.values 0) d.samples
    (some key)

theorem profileCount_eq_total (canon : String → String) (d : DecodedProfile) (key : StackKey) :
    profileCount canon d key = Row.col 0
      (total (fun c => keyOf canon c.1) Prod.snd (contributions canon d) (some key)) := by
  rw [← total_hom, contributions, total_map]
  apply total_congr
  · exact fun _ _ => Iff.rfl
  · exact fun s _ => (Row.col_ofValues s.values 0).symm

theorem allContributions_count (canon : String → String) (ps : List DecodedProfile)
    (key : StackKey) : Row.col 0 (total (fun c => keyOf canon c.1) Prod.snd
      (allContributions canon ps) (some key)) =
        (ps.map fun p => profileCount canon p key).sum := by
  induction ps with
  | nil => rfl
  | cons p ps ih =>
    rw [allContributions, List.flatMap_cons, total_append, map_add, List.map_cons, List.sum_cons,
      profileCount_eq_total, ← ih]
    rfl

theorem mergeAll_count {canon : String → String} {ps : List DecodedProfile}
    {acc : LiveProfileAccumulator} (hsize : 1 + (ps.map cost).sum < 2 ^ 63)
    (h : mergeAll canon ps = .ok acc) (key : StackKey) : profileCount canon acc.profile key =
      ((ps.map DecodedProfile.effective).map fun p => profileCount canon p key).sum := by
  rw [← Nat.zero_add (ps.map cost).sum] at hsize
  have hends := mergeAll_ends canon hsize
  rw [h] at hends
  obtain ⟨-, -, hinv, -⟩ := hends.of_ok
  rw [profileCount_eq_total, hinv.grouped.total_comp (keyOf canon), allContributions_count]

/-- What the profile in a frame can add to the tables. -/
def frameCost (F : Foundation) (frame : SessionFrame) : ℕ :=
  ((DecodedProfile.decode F.text frame.payload).toOption.map cost).getD 0

theorem frameCost_eq {F : Foundation} {frame : SessionFrame} {d : DecodedProfile}
    (h : DecodedProfile.decode F.text frame.payload = .ok d) : frameCost F frame = cost d := by
  rw [frameCost, h]
  rfl

section Taken
variable {F : Foundation} {acc acc' : LiveProfileAccumulator} {ps : List DecodedProfile}

theorem take_isDelta {frame : SessionFrame} (hdelta : isDelta frame = true)
    (hacc : mergeAll F.canon ps = .ok acc) (h : take F acc frame = .ok acc') :
    ∃ d, DecodedProfile.decode F.text frame.payload = .ok d ∧
      mergeAll F.canon (ps ++ [d]) = .ok acc' := by
  have hkind : frame.header.kind = .profileDelta := of_decide_eq_true hdelta
  rw [take, hkind] at h
  obtain ⟨d, hd, hmerge⟩ := Fallible.bind_eq_ok.mp h
  refine ⟨d, hd, ?_⟩
  rw [mergeAll, List.foldlM_append]
  change (mergeAll F.canon ps >>= fun a => [d].foldlM (fun acc p => acc.merge F.canon p) a) = _
  rw [hacc, ok_bind, List.foldlM_cons, hmerge]
  rfl

theorem take_merges {frame : SessionFrame} (hacc : mergeAll F.canon ps = .ok acc)
    (h : take F acc frame = .ok acc') : ∃ ps', mergeAll F.canon ps' = .ok acc' ∧
      (ps'.map cost).sum ≤ (ps.map cost).sum + frameCost F frame := by
  by_cases hdelta : isDelta frame = true
  · obtain ⟨d, hd, hmerged⟩ := take_isDelta hdelta hacc h
    refine ⟨_, hmerged, ?_⟩
    rw [List.map_append, List.sum_append, frameCost_eq hd, List.map_singleton,
      List.sum_singleton]
  by_cases hcheckpoint : frame.header.kind = .profileCheckpoint
  · rw [take, hcheckpoint] at h
    obtain ⟨d, hd, hreplace⟩ := Fallible.bind_eq_ok.mp h
    refine ⟨[d], ?_, ?_⟩
    · rw [mergeAll, List.foldlM_cons]
      change (LiveProfileAccumulator.replace F.canon d >>= fun a => pure a) = _
      rw [hreplace]
      rfl
    · rw [frameCost_eq hd, List.map_singleton, List.sum_singleton]
      exact Nat.le_add_left ..
  · have hdata : ¬ IsData frame := by
      rintro (hkind | hkind)
      · exact hcheckpoint hkind
      · exact hdelta (decide_eq_true hkind)
    rw [take_other hdata] at h
    cases h
    exact ⟨ps, hacc, Nat.le_add_right ..⟩

theorem foldlM_take_merges {frames : List SessionFrame} (hacc : mergeAll F.canon ps = .ok acc)
    (h : frames.foldlM (take F) acc = .ok acc') : ∃ ps', mergeAll F.canon ps' = .ok acc' ∧
      (ps'.map cost).sum ≤ (ps.map cost).sum + (frames.map (frameCost F)).sum := by
  induction frames generalizing acc ps with
  | nil =>
    cases h
    exact ⟨ps, hacc, Nat.le_add_right ..⟩
  | cons frame frames ih =>
    rw [List.foldlM_cons] at h
    obtain ⟨a, htake, hrest⟩ := Fallible.bind_eq_ok.mp h
    obtain ⟨ps₁, hps₁, hcost₁⟩ := take_merges hacc htake
    obtain ⟨ps₂, hps₂, hcost₂⟩ := ih hps₁ hrest
    refine ⟨ps₂, hps₂, ?_⟩
    rw [List.map_cons, List.sum_cons]
    omega

theorem foldlM_take_deltas {frames : List SessionFrame}
    (hdeltas : ∀ f ∈ frames, isDelta f = true) (hacc : mergeAll F.canon ps = .ok acc)
    (h : frames.foldlM (take F) acc = .ok acc') : ∃ ds,
      List.Forall₂ (fun f d => DecodedProfile.decode F.text f.payload = .ok d) frames ds ∧
        mergeAll F.canon (ps ++ ds) = .ok acc' := by
  induction frames generalizing acc ps with
  | nil =>
    cases h
    exact ⟨[], .nil, by rwa [List.append_nil]⟩
  | cons frame frames ih =>
    rw [List.forall_mem_cons] at hdeltas
    rw [List.foldlM_cons] at h
    obtain ⟨a, htake, hrest⟩ := Fallible.bind_eq_ok.mp h
    obtain ⟨d, hd, hmerged⟩ := take_isDelta hdeltas.1 hacc htake
    obtain ⟨ds, hds, hall⟩ := ih hdeltas.2 hmerged hrest
    refine ⟨d :: ds, .cons hd hds, ?_⟩
    rwa [List.append_assoc] at hall

end Taken

theorem countIn_eq {F : Foundation} {payload : List UInt8} {d : DecodedProfile}
    (h : DecodedProfile.decode F.text payload = .ok d) (key : StackKey) :
    countIn F payload key = profileCount F.canon d key := by
  unfold countIn
  rw [h]
  rfl

theorem deltas_add {F : Foundation} {before after : List SessionFrame}
    {acc : LiveProfileAccumulator}
    (h : (before ++ after).foldlM (take F) (RuntimeSession.new F).accumulator = .ok acc)
    (hdeltas : ∀ f ∈ after, isDelta f = true)
    (hids : ∀ f ∈ after, ∀ d, DecodedProfile.decode F.text f.payload = .ok d → UniqueIds d)
    (hsize : 1 + ((before ++ after).map (frameCost F)).sum < 2 ^ 63) :
    ∃ acc₀, before.foldlM (take F) (RuntimeSession.new F).accumulator = .ok acc₀ ∧
      ∀ key, profileCount F.canon acc.profile key = profileCount F.canon acc₀.profile key +
        (after.map fun f => countIn F f.payload key).sum := by
  rw [List.foldlM_append] at h
  obtain ⟨acc₀, hbefore, hafter⟩ := Fallible.bind_eq_ok.mp h
  have hnew : mergeAll F.canon [] = .ok (RuntimeSession.new F).accumulator := rfl
  obtain ⟨ps, hps, hcost⟩ := foldlM_take_merges hnew hbefore
  obtain ⟨ds, hds, hall⟩ := foldlM_take_deltas hdeltas hps hafter
  have hcosts : after.map (frameCost F) = ds.map cost :=
    map_eq_of_forall₂ (hds.imp fun _ _ hd => frameCost_eq hd)
  rw [List.map_append, List.sum_append, hcosts] at hsize
  rw [List.map_nil, List.sum_nil, Nat.zero_add] at hcost
  refine ⟨acc₀, hbefore, fun key => ?_⟩
  have hcounts : (after.map fun f => countIn F f.payload key) =
      (ds.map DecodedProfile.effective).map fun d => profileCount F.canon d key := by
    rw [List.map_map]
    refine map_eq_of_forall₂ ((forall₂_mem_left hds).imp fun f d hd => ?_)
    rw [countIn_eq hd.2, Function.comp_apply, (hids f hd.1 d hd.2).effective]
  rw [mergeAll_count (by rw [List.map_append, List.sum_append]; omega) hall,
    mergeAll_count (by omega) hps, hcounts, List.map_append, List.map_append, List.sum_append]

/-- The application has neither a runtime nor a journal of the session that the Hello names. -/
structure Unknown (M : Setting) (id : UUID) (app : State) : Prop where
  named : ∃ hello, M.foundation.decodeHello M.hello = some hello ∧
    M.foundation.uuid hello.sessionId = some id
  runtime : app.runtimes id = none
  journal : ∀ x, app.sessions id = some x → x.journalRelativePath = none

theorem Unknown.accumulates {M : Setting} {id : UUID} {app : State} (h : Unknown M id app)
    {actions : List Action} {y : System} (hrun : Run M (.start app) actions y)
    {r : RuntimeSession} (hr : y.app.runtimes id = some r) :
    (y.applied id).foldlM (take M.foundation) (RuntimeSession.new M.foundation).accumulator =
      .ok r.accumulator := by
  obtain ⟨hello, hdecode, huuid⟩ := h.named
  have htracks := (Tracks.start (M := M) h.runtime h.journal).run hdecode huuid hrun
  have hhandled : y.handled ≠ [] := by
    intro hnil
    rw [(htracks.waiting hnil).1] at hr
    cases hr
  obtain ⟨r', x, hr', -, -, hmerged⟩ := htracks.running hhandled
  rw [hr] at hr'
  cases hr'
  exact hmerged

/-- In every run, however the connections are cut and their frames interleaved, each delta that
was sent is merged at most once and nothing else is. So neither the merged deltas nor the
accumulator, since the last checkpoint, count more for a stack than the last snapshot that was
sent. -/
theorem counted_once {M : Setting} (htext : ∀ s, M.foundation.text (Pprof.utf8 s) = some s)
    (hcanon : Canonical M.foundation.canon) {app : State} {actions : List Action} {y : System}
    (hrun : Run M (.start app) actions y) (id : UUID) :
    (y.merged id).Subperm (y.deltas.map WrittenFrame.received) ∧
      (∀ key, ((y.merged id).map fun f => countIn M.foundation f.payload key).sum ≤
        ((y.progress.published.map fun p => countOf p key).getD 0 : ℕ)) ∧
      (Unknown M id app → ∀ r, y.app.runtimes id = some r →
        (y.applied id).foldlM (take M.foundation) (RuntimeSession.new M.foundation).accumulator =
          .ok r.accumulator ∧
        (1 + ((y.applied id).map (frameCost M.foundation)).sum < 2 ^ 63 →
          ∀ before after, y.applied id = before ++ after → (∀ f ∈ after, isDelta f = true) →
            ∃ acc, before.foldlM (take M.foundation) (RuntimeSession.new M.foundation).accumulator =
              .ok acc ∧ ∀ key, profileCount M.foundation.canon r.accumulator.profile key ≤
                profileCount M.foundation.canon acc.profile key +
                  ((y.progress.published.map fun p => countOf p key).getD 0 : ℕ))) := by
  have hinv := (Inv.start app).run hrun
  have hsubperm := hinv.merged_subperm hrun id
  refine ⟨hsubperm, hinv.subperm_count htext hcanon hsubperm, fun hunknown r hr => ?_⟩
  have hmerged := hunknown.accumulates hrun hr
  refine ⟨hmerged, fun hsize before after happlied hdeltas => ?_⟩
  have hafter : after.Subperm (y.deltas.map WrittenFrame.received) := by
    refine List.Subperm.trans ?_ hsubperm
    rw [System.merged, happlied, List.filter_append, List.filter_eq_self.mpr hdeltas]
    exact (List.sublist_append_right ..).subperm
  have hids : ∀ f ∈ after, ∀ d, DecodedProfile.decode M.foundation.text f.payload = .ok d →
      UniqueIds d := by
    intro f hf d hd
    obtain ⟨g, hg, rfl⟩ := List.mem_map.mp (hafter.subset hf)
    obtain ⟨x, -, -, publication, hencoded⟩ := forall₂_exists_right hinv.carried hg
    obtain ⟨names, d', hc, hdecode, hagrees⟩ := hencoded.decoded htext
    cases hdecode.symm.trans hd
    exact delta_uniqueIds hc hagrees
  rw [happlied] at hmerged hsize
  obtain ⟨acc, hacc, hcount⟩ := deltas_add hmerged hdeltas hids hsize
  refine ⟨acc, hacc, fun key => ?_⟩
  rw [hcount key]
  exact add_le_add_right (hinv.subperm_count htext hcanon hafter key) _

theorem onePayload_decodes (count : UInt64) : ∃ d,
    DecodedProfile.decode oneSession.text (onePayload count) = .ok d ∧ UniqueIds d ∧
      cost d = 21 ∧ profileCount oneSession.canon d oneKey = (clampI64 count).toInt := by
  obtain ⟨names, d, hc, hdecode, hagrees⟩ := (onePayload_encoded count count).decoded
    (F := oneSession) fun s => (Pprof.fromUtf8_eq_some_iff _ _).mpr rfl
  have hids := delta_uniqueIds hc hagrees
  have hbuilt : published 1000 (onePublication count count, oneSnapshot count) = _ :=
    oneFrame_built _ count
  rw [hbuilt] at hagrees
  obtain ⟨pt, -, rfl⟩ := hagrees
  refine ⟨_, hdecode, hids, rfl, ?_⟩
  refine (total_cons_eq _ _ ?_ _).trans ?_
  · rfl
  · rw [total_nil, add_zero]
    rfl

/-- The delta whose write failed is not merged. Its counts are when they are sent again, and the
accumulator counts them once. -/
theorem counted_once_resent : ∃ actions y r, Run twoConnections (.start .initial) actions y ∧
    y.merged 1 = [newerDelta] ∧ [newerDelta].Subperm (y.deltas.map WrittenFrame.received) ∧
    (∀ key, ([newerDelta].map fun f => countIn oneSession f.payload key).sum ≤
      ((y.progress.published.map fun p => countOf p key).getD 0 : ℕ)) ∧
    y.app.runtimes 1 = some r ∧ profileCount id r.accumulator.profile oneKey = 3 ∧
    ∀ key, profileCount id r.accumulator.profile key ≤
      ((y.progress.published.map fun p => countOf p key).getD 0 : ℕ) := by
  obtain ⟨app, hreceive⟩ := newerDelta_received
  obtain ⟨actions, hrun⟩ := newerMerged_run hreceive
  obtain ⟨-, -, acc, hruntime, -⟩ := receive_accepted (by decide) newerDelta_accepted hreceive
  obtain ⟨hsubperm, hcounts, hunknown⟩ := counted_once
    (fun s => (Pprof.fromUtf8_eq_some_iff _ _).mpr rfl) (fun _ _ => rfl) hrun 1
  obtain ⟨hmerged, hsum⟩ := hunknown
    ⟨⟨firstHello, firstHello_decoded, firstHello_uuid⟩, rfl, fun _ h => by cases h⟩ _ hruntime
  obtain ⟨d, hdecode, hids, hcost, hcount⟩ := onePayload_decodes 3
  rw [newerMerged_merged] at hsubperm hcounts
  rw [newerMerged_applied] at hmerged hsum
  have hsize : 1 + ([newerDelta].map (frameCost oneSession)).sum < 2 ^ 63 := by
    rw [List.map_singleton, List.sum_singleton, (frameCost_eq hdecode).trans hcost]
    decide
  have hdelta : ∀ f ∈ [newerDelta], isDelta f = true := List.forall_mem_singleton.mpr rfl
  obtain ⟨new, hnew, hbound⟩ := hsum hsize [] [newerDelta] rfl hdelta
  cases hnew
  refine ⟨actions, _, _, hrun, newerMerged_merged app, hsubperm, hcounts, hruntime, ?_,
    fun key => (hbound key).trans_eq (zero_add _)⟩
  obtain ⟨new, hnew, hadd⟩ := @deltas_add _ [] _ _ hmerged hdelta
    (List.forall_mem_singleton.mpr fun d' hd' => by cases hdecode.symm.trans hd'; exact hids) hsize
  cases hnew
  have hone : countIn oneSession newerDelta.payload oneKey = 3 :=
    (countIn_eq hdecode oneKey).trans hcount
  refine (hadd oneKey).trans ?_
  rw [List.map_singleton, List.sum_singleton]
  exact (zero_add _).trans hone

end PProfessor.Network
