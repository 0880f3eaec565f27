import PProfessor.SessionChanges

set_option autoImplicit false

/-!
# The journal and the runtime

What a session's journal holds, and that replaying it comes to the runtime's accumulator.
-/
namespace PProfessor.Coordinator
open Kit Framing

/-- The journal of the frames applied; the file is created with the first. -/
def journalOf (frames : List SessionFrame) : Option (List UInt8) :=
  if frames = [] then none else some (written SessionFrame.bytes frames)

theorem max_of_le {a b : UInt64} (h : a ≤ b) : max a b = b := if_pos h

theorem le_max (a b : UInt64) : a ≤ max a b ∧ b ≤ max a b := by
  by_cases h : a ≤ b
  · rw [max_of_le h]
    exact ⟨h, UInt64.le_refl b⟩
  · have hmax : max a b = a := if_neg h
    rw [hmax]
    exact ⟨UInt64.le_refl a, UInt64.le_of_lt (UInt64.not_le.mp h)⟩

section Replay
variable {F : Foundation}

theorem journalOf_concat (frames : List SessionFrame) (frame : SessionFrame) :
    journalOf (frames ++ [frame]) = some ((journalOf frames).getD [] ++ frame.bytes) := by
  rw [journalOf, if_neg (List.append_ne_nil_of_right_ne_nil _ (List.cons_ne_nil _ _)),
    written_append, journalOf]
  split_ifs with h
  · rw [h]
    simp [written]
  · simp [written]

theorem RuntimeSession.replay_data {r : RuntimeSession} {frame : SessionFrame}
    (h : IsData frame) : r.replay F frame = (do
      let accumulator ← take F r.accumulator frame
      .ok ⟨accumulator, max r.lastSequence frame.header.sequence⟩) := by
  unfold replay
  rcases h with hkind | hkind <;> rw [hkind]

theorem RuntimeSession.replay_other {r : RuntimeSession} {frame : SessionFrame}
    (h : ¬ IsData frame) : r.replay F frame = .ok r := by
  unfold replay
  split
  · rename_i hkind
    exact absurd (.inl hkind) h
  · rename_i hkind
    exact absurd (.inr hkind) h
  · rfl

theorem RuntimeSession.replay_lastSequence_le {r r' : RuntimeSession} {frame : SessionFrame}
    (h : r.replay F frame = .ok r') :
    r.lastSequence ≤ r'.lastSequence ∧
      (IsData frame → frame.header.sequence ≤ r'.lastSequence) := by
  by_cases hdata : IsData frame
  · rw [replay_data hdata] at h
    obtain ⟨accumulator, -, h⟩ := Fallible.bind_eq_ok.mp h
    cases h
    have hmax := le_max r.lastSequence frame.header.sequence
    exact ⟨hmax.1, fun _ => hmax.2⟩
  · rw [replay_other hdata] at h
    cases h
    exact ⟨UInt64.le_refl _, fun hd => absurd hd hdata⟩

theorem replay_rejects {frames : List SessionFrame} {r r' : RuntimeSession}
    (h : frames.foldlM (RuntimeSession.replay F) r = .ok r') :
    r.lastSequence ≤ r'.lastSequence ∧
      ∀ frame ∈ frames, IsData frame → frame.header.sequence ≤ r'.lastSequence := by
  induction frames generalizing r with
  | nil =>
    cases h
    exact ⟨UInt64.le_refl _, fun _ hf => nomatch hf⟩
  | cons frame frames ih =>
    obtain ⟨r₁, hr₁, h⟩ := Fallible.bind_eq_ok.mp (List.foldlM_cons (m := Except Trap) ▸ h)
    obtain ⟨hstep, hfirst⟩ := RuntimeSession.replay_lastSequence_le hr₁
    obtain ⟨hrest, hlater⟩ := ih h
    refine ⟨UInt64.le_trans hstep hrest, fun f hf hdata => ?_⟩
    rcases List.mem_cons.mp hf with rfl | hf
    · exact UInt64.le_trans (hfirst hdata) hrest
    · exact hlater f hf hdata

end Replay

/-- What the store and the memory hold of a session, in every run. -/
structure View.Sound (F : Foundation) (id : UUID) (v : View) : Prop where
  absent : v.session = none → v.runtime = none ∧ v.applied = [] ∧ v.files = fun _ => none
  data : ∀ frame ∈ v.applied, frame.WellFormed ∧ IsData frame
  artifact : ∀ x path, v.session = some x → x.artifactRelativePath = some path →
    path = artifactPath id ∧ v.files "profile.pb.gz" ≠ none
  completed : ∀ x, v.session = some x → x.status = .completed → x.artifactRelativePath ≠ none
  path : ∀ x, v.session = some x → x.artifactRelativePath = none →
    x.journalRelativePath = if x.source = .appAttach then none else some (journalPath id)
  journal : ∀ x, v.session = some x → x.artifactRelativePath = none →
    v.files "live.journal" = journalOf v.applied
  runtime : ∀ x r, v.session = some x → x.artifactRelativePath = none → x.source ≠ .appAttach →
    v.runtime = some r → ∃ replayed, v.applied.foldlM (RuntimeSession.replay F) (.new F) =
      .ok replayed ∧ replayed.accumulator = r.accumulator ∧ replayed.lastSequence ≤ r.lastSequence

namespace View.Sound

variable {F : Foundation} {id : UUID} {v v' : View}

theorem initial : View.Sound F id ⟨none, none, fun _ => none, []⟩ where
  absent _ := ⟨rfl, rfl, rfl⟩
  data _ hf := nomatch hf
  artifact _ _ hx := nomatch hx
  completed _ hx := nomatch hx
  path _ hx := nomatch hx
  journal _ hx := nomatch hx
  runtime _ _ hx := nomatch hx

theorem revised {x x' : ProfileSession} (h : v.Sound F id) (hx : v.session = some x)
    (hrevises : Revises x x') : View.Sound F id { v with session := some x' } where
  absent hnone := nomatch hnone
  data := h.data
  artifact y path hy hp := by
    cases hy
    exact h.artifact x path hx (hrevises.artifact ▸ hp)
  completed y hy hstatus := by
    cases hy
    exact absurd hstatus hrevises.status
  path y hy hp := by
    cases hy
    rw [hrevises.journal, hrevises.source]
    exact h.path x hx (hrevises.artifact ▸ hp)
  journal y hy hp := by
    cases hy
    exact h.journal x hx (hrevises.artifact ▸ hp)
  runtime y r hy hp hsource hr := by
    cases hy
    exact h.runtime x r hx (hrevises.artifact ▸ hp) (hrevises.source ▸ hsource) hr

theorem forgotten (h : v.Sound F id) : View.Sound F id { v with runtime := none } where
  absent hnone := ⟨rfl, (h.absent hnone).2⟩
  data := h.data
  artifact := h.artifact
  completed := h.completed
  path := h.path
  journal := h.journal
  runtime _ _ _ _ _ hr := nomatch hr

theorem setRuntime {x : ProfileSession} {r : RuntimeSession} (h : v.Sound F id)
    (hx : v.session = some x)
    (hr : x.artifactRelativePath = none → x.source ≠ .appAttach → ∃ replayed,
      v.applied.foldlM (RuntimeSession.replay F) (.new F) = .ok replayed ∧
        replayed.accumulator = r.accumulator ∧ replayed.lastSequence ≤ r.lastSequence) :
    View.Sound F id { v with runtime := some r } where
  absent hnone := by
    rw [hx] at hnone
    cases hnone
  data := h.data
  artifact := h.artifact
  completed := h.completed
  path := h.path
  journal := h.journal
  runtime y r' hy hp hsource hr' := by
    cases hr'
    cases hx.symm.trans hy
    exact hr hp hsource

theorem foldlM_replay_concat {frames : List SessionFrame} {frame : SessionFrame}
    {r replayed : RuntimeSession} {accumulator : LiveProfileAccumulator}
    (hframes : frames.foldlM (RuntimeSession.replay F) (.new F) = .ok replayed)
    (haccumulator : replayed.accumulator = r.accumulator)
    (hsequence : replayed.lastSequence ≤ r.lastSequence) (hdata : IsData frame)
    (hlt : r.lastSequence < frame.header.sequence)
    (htake : take F r.accumulator frame = .ok accumulator) :
    (frames ++ [frame]).foldlM (RuntimeSession.replay F) (.new F) =
      .ok ⟨accumulator, frame.header.sequence⟩ := by
  have hle := UInt64.le_trans hsequence (UInt64.le_of_lt hlt)
  rw [List.foldlM_append, hframes]
  change List.foldlM (RuntimeSession.replay F) replayed [frame] = _
  rw [List.foldlM_cons, RuntimeSession.replay_data hdata, haccumulator, htake]
  change Except.ok _ = _
  rw [max_of_le hle]

theorem merged {x x' : ProfileSession} {r : RuntimeSession} {frame : SessionFrame}
    {accumulator : LiveProfileAccumulator} (h : v.Sound F id) (hx : v.session = some x)
    (hrevises : Revises x x') (hr : v.runtime = some r) (hframe : frame.WellFormed)
    (hdata : IsData frame) (hlt : r.lastSequence < frame.header.sequence)
    (htake : take F r.accumulator frame = .ok accumulator) : View.Sound F id {
      session := some x'
      runtime := some ⟨accumulator, frame.header.sequence⟩
      files := Function.update v.files "live.journal"
        (some ((v.files "live.journal").getD [] ++ frame.bytes))
      applied := v.applied ++ [frame] } where
  absent hnone := nomatch hnone
  data f hf := by
    rcases List.mem_append.mp hf with hf | hf
    · exact h.data f hf
    · cases List.mem_singleton.mp hf
      exact ⟨hframe, hdata⟩
  artifact y path hy hp := by
    cases hy
    obtain ⟨hpath, hfile⟩ := h.artifact x path hx (hrevises.artifact ▸ hp)
    refine ⟨hpath, ?_⟩
    dsimp only
    rwa [Function.update_of_ne (by decide)]
  completed y hy hstatus := by
    cases hy
    exact absurd hstatus hrevises.status
  path y hy hp := by
    cases hy
    rw [hrevises.journal, hrevises.source]
    exact h.path x hx (hrevises.artifact ▸ hp)
  journal y hy hp := by
    cases hy
    dsimp only
    rw [Function.update_self, h.journal x hx (hrevises.artifact ▸ hp), journalOf_concat]
  runtime y r' hy hp hsource hr' := by
    cases hy
    cases hr'
    obtain ⟨replayed, hframes, haccumulator, hsequence⟩ := h.runtime x r hx
      (hrevises.artifact ▸ hp) (hrevises.source ▸ hsource) hr
    exact ⟨_, foldlM_replay_concat hframes haccumulator hsequence hdata hlt htake, rfl,
      UInt64.le_refl _⟩

theorem of_completed {x : ProfileSession} {contents : List UInt8} (h : v.Sound F id) :
    View.Sound F id { v with
      session := some { x with
        artifactRelativePath := some (artifactPath id)
        journalRelativePath := none
        status := .completed }
      files := Function.update (Function.update v.files "profile.pb.gz" (some contents))
        "live.journal" none } where
  absent hnone := nomatch hnone
  data := h.data
  artifact y path hy hp := by
    cases hy
    cases hp
    refine ⟨rfl, ?_⟩
    dsimp only
    rw [Function.update_of_ne (by decide), Function.update_self]
    exact nofun
  completed y hy _ := by
    cases hy
    exact nofun
  path y hy hp := by
    cases hy
    cases hp
  journal y hy hp := by
    cases hy
    cases hp
  runtime y _ hy hp := by
    cases hy
    cases hp

theorem opened {x : ProfileSession} (h : v.Sound F id) (hnone : v.session = none)
    (hartifact : x.artifactRelativePath = none)
    (hjournal : x.journalRelativePath =
      if x.source = .appAttach then none else some (journalPath id))
    (hstatus : x.status ≠ .completed) {runtime : Option RuntimeSession}
    (hruntime : ∀ r, runtime = some r → r = .new F) :
    View.Sound F id { v with session := some x, runtime } where
  absent hx := nomatch hx
  data := h.data
  artifact y path hy hp := by
    cases hy
    rw [hartifact] at hp
    cases hp
  completed y hy hs := by
    cases hy
    exact absurd hs hstatus
  path y hy _ := by
    cases hy
    exact hjournal
  journal y hy _ := by
    obtain ⟨-, happlied, hfiles⟩ := h.absent hnone
    rw [happlied, hfiles]
    rfl
  runtime y r hy _ _ hr := by
    obtain ⟨-, happlied, -⟩ := h.absent hnone
    rw [happlied, hruntime r hr]
    exact ⟨.new F, rfl, rfl, UInt64.le_refl _⟩

theorem imported {x : ProfileSession} {contents : List UInt8} (h : v.Sound F id)
    (hartifact : x.artifactRelativePath = some (artifactPath id)) : View.Sound F id { v with
      session := some x
      files := Function.update v.files "profile.pb.gz" (some contents) } where
  absent hx := nomatch hx
  data := h.data
  artifact y path hy hp := by
    cases hy
    rw [hartifact] at hp
    cases hp
    refine ⟨rfl, ?_⟩
    dsimp only
    rw [Function.update_self]
    exact nofun
  completed y hy _ := by
    cases hy
    rw [hartifact]
    exact nofun
  path y hy hp := by
    cases hy
    rw [hartifact] at hp
    cases hp
  journal y hy hp := by
    cases hy
    rw [hartifact] at hp
    cases hp
  runtime y _ hy hp := by
    cases hy
    rw [hartifact] at hp
    cases hp

theorem recorded {x : ProfileSession} {path : RelativePath} {frames : List SessionFrame}
    (h : v.Sound F id) (hx : v.session = some x) (hpath : x.journalRelativePath = some path)
    (hrecorded : v.Recorded id path frames) (hartifact : x.artifactRelativePath = none)
    (hsource : x.source ≠ .appAttach) : frames = v.applied := by
  have hjournal := h.path x hx hartifact
  rw [if_neg hsource, hpath] at hjournal
  obtain ⟨data, hdata, hframes⟩ := hrecorded (Option.some.inj hjournal)
  rw [h.journal x hx hartifact, journalOf] at hdata
  split_ifs at hdata
  cases hdata
  rw [SessionFrameParser.append_bytes fun f hf => (h.data f hf).1] at hframes
  exact (Except.ok.inj hframes).symm

theorem unrecorded {x : ProfileSession} (h : v.Sound F id) (hx : v.session = some x)
    (hunrecorded : v.Unrecorded id x) (hartifact : x.artifactRelativePath = none)
    (hsource : x.source ≠ .appAttach) : v.applied = [] := by
  have hjournal := h.path x hx hartifact
  rw [if_neg hsource] at hjournal
  by_contra happlied
  refine hunrecorded hjournal _ v.applied (h.journal x hx hartifact |>.trans (if_neg happlied)) ?_
  exact SessionFrameParser.append_bytes fun f hf => (h.data f hf).1

theorem raised {r : RuntimeSession} {sequence : UInt64} (h : v.Sound F id)
    (hr : v.runtime = some r) (hle : r.lastSequence ≤ sequence) :
    View.Sound F id { v with runtime := some ⟨r.accumulator, sequence⟩ } := by
  cases hx : v.session with
  | none =>
    rw [(h.absent hx).1] at hr
    cases hr
  | some x =>
    rw [← hx]
    refine h.setRuntime hx fun hartifact hsource => ?_
    obtain ⟨replayed, hframes, haccumulator, hsequence⟩ := h.runtime x r hx hartifact hsource hr
    exact ⟨replayed, hframes, haccumulator, UInt64.le_trans hsequence hle⟩

theorem change (h : v.Sound F id) (hchange : Change F id v v') : v'.Sound F id := by
  cases hchange with
  | revised hx hrevises => exact h.revised hx hrevises
  | raised hr hle => exact h.raised hr hle
  | replayed hr hx hpath hrecorded hfold =>
    refine h.setRuntime hx fun hartifact hsource => ?_
    rw [← h.recorded hx hpath hrecorded hartifact hsource]
    exact ⟨_, hfold, rfl, UInt64.le_refl _⟩
  | started hr hx hunrecorded =>
    refine h.setRuntime hx fun hartifact hsource => ?_
    rw [h.unrecorded hx hunrecorded hartifact hsource]
    exact ⟨_, rfl, rfl, UInt64.le_refl _⟩
  | merged hx hrevises hr hframe hdata hlt htake =>
    exact h.merged hx hrevises hr hframe hdata hlt htake
  | completed hx => exact h.of_completed
  | opened hnone hsource hartifact hjournal hstatus =>
    refine h.opened hnone hartifact (by rw [hjournal, if_neg hsource]) hstatus fun r hr => ?_
    rw [(h.absent hnone).1] at hr
    exact (Option.some.inj hr).symm
  | launched hnone hsource hartifact hjournal hstatus =>
    refine h.opened hnone hartifact (by rw [hjournal, if_pos hsource]) hstatus fun r hr => ?_
    rw [(h.absent hnone).1] at hr
    cases hr
  | imported hnone hartifact => exact h.imported hartifact
  | removed => exact initial
  | forgotten => exact h.forgotten

theorem changes (h : v.Sound F id) (hchanges : Relation.ReflTransGen (Change F id) v v') :
    v'.Sound F id := by
  induction hchanges with
  | refl => exact h
  | tail _ hchange ih => exact ih.change hchange

end View.Sound

theorem Reachable.sound {F : Foundation} {s : State} {applied : UUID → List SessionFrame}
    (h : Reachable F s applied) (id : UUID) : (s.view applied id).Sound F id := by
  induction h with
  | initial => exact .initial
  | step _ hpossible hstep ih => exact ih.changes (State.step_changes hpossible hstep)

end PProfessor.Coordinator
