import PProfessor.SessionJournal

set_option autoImplicit false

/-!
# Selecting a session

What `select` presents: of a session after a restart, and of a completed one.
-/
namespace PProfessor.Coordinator
open Kit Framing

section
variable {F : Foundation} {s s' : State} {id : UUID} {x : ProfileSession}

theorem State.restart_session (failure : Option String) (hx : s.sessions id = some x) :
    ∃ x', (s.restart failure).sessions id = some x' ∧
      x'.artifactRelativePath = x.artifactRelativePath ∧
      x'.journalRelativePath = x.journalRelativePath := by
  cases failure with
  | some description => exact ⟨x, hx, rfl, rfl⟩
  | none =>
    have hmap : (s.restart none).sessions id = some (interrupted x) := by
      change (s.sessions id).map interrupted = _
      rw [hx, Option.map_some]
    rcases interrupted_cases x with hsame | hrevises
    · exact ⟨x, hsame ▸ hmap, rfl, rfl⟩
    · exact ⟨_, hmap, hrevises.artifact, hrevises.journal⟩

theorem State.step_select (hx : s.sessions id = some x) :
    s.step F (.select id) = s.select F id x := by
  rw [step, hx]

theorem State.select_nothing (hr : s.runtimes id = none) (hartifact : x.artifactRelativePath = none)
    (hjournal : ∀ path, x.journalRelativePath = some path →
      s.files path.directory path.name = none) :
    s.select F id x = .ok (s.setSelection id x) := by
  have hr' : (s.setSelection id x).runtimes id = none := hr
  rw [select, load, hr', hartifact]
  cases hpath : x.journalRelativePath with
  | none => rfl
  | some path =>
    have hfile : (s.setSelection id x).files path.directory path.name = none := hjournal path hpath
    dsimp only
    rw [replayJournal, hfile]
    rfl

theorem State.select_journal {frames : List SessionFrame} {replayed : RuntimeSession}
    (hr : s.runtimes id = none) (hartifact : x.artifactRelativePath = none)
    (hpath : x.journalRelativePath = some (journalPath id)) (hne : frames ≠ [])
    (hfile : s.files id "live.journal" = journalOf frames) (hframes : ∀ f ∈ frames, f.WellFormed)
    (hfold : frames.foldlM (RuntimeSession.replay F) (.new F) = .ok replayed) :
    s.select F id x = .ok { (s.setSelection id x).setRuntime id replayed with
      shown := some (.decodedProfile replayed.accumulator.profile) } := by
  have hr' : (s.setSelection id x).runtimes id = none := hr
  have hfile' : (s.setSelection id x).files id "live.journal" =
      some (written SessionFrame.bytes frames) := hfile.trans (if_neg hne)
  rw [select, load, hr', hartifact, hpath]
  dsimp only
  rw [replayJournal, journalPath, hfile']
  dsimp only
  rw [SessionFrameParser.append_bytes hframes]
  dsimp only
  rw [hfold]
  rfl

end

def helloPayload : List UInt8 :=
  Pprof.utf8 ("\x7b\"session_id\":\"00000000-0000-0000-0000-000000000001\",\"mode\":\"attach\"," ++
    "\"pid\":7,\"process_name\":\"app\",\"frequency_hz\":99\x7d")

def firstHello : SessionHelloPayload where
  sessionId := "00000000-0000-0000-0000-000000000001"
  mode := "attach"
  pid := 7
  processName := "app"
  frequencyHz := 99

def oneSession : Foundation where
  decodeHello payload := if payload = helloPayload then some firstHello else none
  uuid uuidString := if uuidString = firstHello.sessionId then some 1 else none
  text := Pprof.fromUtf8
  canon := id

def helloFrame (sequence : UInt64) : SessionFrame :=
  ⟨⟨1, 0, .hello, 0, sequence, 116⟩, helloPayload⟩

theorem helloPayload_length : helloPayload.length = 116 := by decide

theorem helloFrame_wellFormed (sequence : UInt64) : (helloFrame sequence).WellFormed :=
  have hfits : (116 : UInt64) ≤ SessionFrameHeader.maximumPayloadLength := by decide
  ⟨helloPayload_length.symm, hfits⟩

def bareFrame (kind : SessionFrameKind) (sequence : UInt64) : SessionFrame :=
  ⟨⟨1, 0, kind, 0, sequence, 0⟩, []⟩

theorem bareFrame_wellFormed (kind : SessionFrameKind) (sequence : UInt64) :
    (bareFrame kind sequence).WellFormed :=
  have hfits : (0 : UInt64) ≤ SessionFrameHeader.maximumPayloadLength := by decide
  ⟨rfl, hfits⟩

theorem firstHello_decoded : oneSession.decodeHello helloPayload = some firstHello := by
  simp [oneSession]

theorem firstHello_uuid : oneSession.uuid firstHello.sessionId = some 1 := by
  simp [oneSession]

theorem take_bareCheckpoint (F : Foundation) (accumulator : LiveProfileAccumulator)
    (sequence : UInt64) :
    take F accumulator (bareFrame .profileCheckpoint sequence) =
      .ok (RuntimeSession.new F).accumulator := by
  have hdecode : DecodedProfile.decode F.text [] = .ok DecodedProfile.new :=
    decodeProtobufFrom_done (Nat.zero_le _)
  change (DecodedProfile.decode F.text [] >>= fun profile =>
    LiveProfileAccumulator.replace F.canon profile) = _
  rw [hdecode]
  rfl

def afterHello : State :=
  ((State.initial.connect 9 1).setRuntime 1 (.new oneSession)).save 1
    (firstHello.session oneSession 1 none)

theorem afterHello_reachable : Reachable oneSession afterHello fun _ => [] :=
  .step (e := .receive 9 (helloFrame 1)) .initial (helloFrame_wellFormed 1)
    ((State.receive_hello rfl).trans
      (State.receiveHello_new firstHello_decoded firstHello_uuid rfl rfl))

/-- The session as `launchAttach` and a Hello leave it. -/
def afterAttach : State :=
  ((((State.initial.launchAttach 1 ⟨7, "app", "arm64"⟩ 99 none).connect 9 1).setRuntime 1
    (.new oneSession)).save 1 { ProfileSession.new "app" .appAttach .connecting
      (some (.ofNat (7 : UInt32).toNat)) (some "app") (some "arm64") 99 with status := .live })

theorem afterAttach_reachable : Reachable oneSession afterAttach fun _ => [] :=
  .step (e := .receive 9 (helloFrame 1))
    (.step (e := .launchAttach 1 ⟨7, "app", "arm64"⟩ 99 none) .initial rfl rfl)
    (helloFrame_wellFormed 1)
    ((State.receive_hello rfl).trans
      (State.receiveHello_launched firstHello_decoded firstHello_uuid rfl rfl rfl))

theorem bareCheckpoint_received {F : Foundation} {s : State} {connectionID id : UUID}
    {r : RuntimeSession} {x : ProfileSession} {sequence : UInt64}
    (ha : s.accepted connectionID (bareFrame .profileCheckpoint sequence) = some (id, r, x)) :
    ∃ s' x', s.step F (.receive connectionID (bareFrame .profileCheckpoint sequence)) = .ok s' ∧
      Revises x x' ∧ x'.status = .live ∧ s'.sessions id = some x' ∧
      s'.runtimes id = some ⟨(RuntimeSession.new F).accumulator, sequence⟩ := by
  let x' := { x with
    status := .live
    durationNanos := (RuntimeSession.new F).accumulator.profile.durationNanos
    sampleCount := 0 }
  let t := ((s.setRuntime id ⟨(RuntimeSession.new F).accumulator, sequence⟩).save id x').present id
    (.decodedProfile (RuntimeSession.new F).accumulator.profile)
  have hview : t.view (fun _ => []) id = _ := State.view_present _
  rw [State.view_save_self, State.view_setRuntime_self] at hview
  refine ⟨t.appendJournal id (bareFrame .profileCheckpoint sequence), x', ?_,
    ⟨rfl, rfl, rfl, nofun⟩, rfl, congrArg View.session hview, congrArg View.runtime hview⟩
  change s.receive F connectionID _ = _
  rw [State.receive_data (.inl rfl) ha, take_bareCheckpoint]
  rfl

/-- After a restart, selecting the session presents the profile, and the recovered sequence
rejects the frames. -/
def Recovers (F : Foundation) (s : State) (failure : Option String) (id : UUID)
    (profile : DecodedProfile) (frames : List SessionFrame) : Prop :=
  ∃ s' r, (s.restart failure).step F (.select id) = .ok s' ∧
    s'.shown = some (.decodedProfile profile) ∧ s'.runtimes id = some r ∧
    ∀ frame ∈ frames, ¬ r.lastSequence < frame.header.sequence

theorem not_recovers {F : Foundation} {s : State} {id : UUID} {x : ProfileSession}
    (hx : s.sessions id = some x) (hopen : x.artifactRelativePath = none)
    (hfiles : ∀ path, x.journalRelativePath = some path →
      s.files path.directory path.name = none)
    (failure : Option String) (profile : DecodedProfile) (frames : List SessionFrame) :
    ¬ Recovers F s failure id profile frames := by
  rintro ⟨s', r', hselect, hshown, -, -⟩
  obtain ⟨x', hx', hartifact, hjournal⟩ := State.restart_session failure hx
  have hnothing : ∀ path, x'.journalRelativePath = some path →
      (s.restart failure).files path.directory path.name = none :=
    fun path hp => hfiles path (hjournal ▸ hp)
  rw [State.step_select hx', State.select_nothing rfl (hartifact.trans hopen) hnothing] at hselect
  cases hselect
  cases hshown

/-- In every run, a restart brings back the accumulator of a session that was never completed
exactly if a Hello created the session and a data frame was accepted for it. -/
theorem recovers_iff {F : Foundation} {s : State} {applied : UUID → List SessionFrame}
    (h : Reachable F s applied) {id : UUID} {x : ProfileSession} {r : RuntimeSession}
    (hx : s.sessions id = some x) (hopen : x.artifactRelativePath = none)
    (hr : s.runtimes id = some r) (failure : Option String) :
    Recovers F s failure id r.accumulator.profile (applied id) ↔
      x.source ≠ .appAttach ∧ applied id ≠ [] := by
  have hsound := h.sound id
  have hpath := hsound.path x hx hopen
  have hfile : s.files id "live.journal" = journalOf (applied id) := hsound.journal x hx hopen
  constructor
  · intro hrecovers
    by_contra hnot
    refine not_recovers hx hopen (fun path hp => ?_) failure _ _ hrecovers
    rw [hpath] at hp
    split_ifs at hp with hsource
    cases hp
    have hempty : applied id = [] := by
      by_contra hne
      exact hnot ⟨hsource, hne⟩
    rw [hempty] at hfile
    exact hfile
  · rintro ⟨hsource, hne⟩
    obtain ⟨x', hx', hartifact, hjournal⟩ := State.restart_session failure hx
    rw [if_neg hsource, ← hjournal] at hpath
    obtain ⟨replayed, hfold, haccumulator, -⟩ := hsound.runtime x r hx hopen hsource hr
    unfold Recovers
    rw [State.step_select hx']
    refine ⟨_, replayed, State.select_journal rfl (hartifact.trans hopen) hpath hne hfile
      (fun f hf => (hsound.data f hf).1) hfold, ?_, ?_, ?_⟩
    · rw [haccumulator]
    · exact Function.update_self ..
    · intro frame hframe
      exact UInt64.not_lt.mpr ((replay_rejects hfold).2 frame hframe (hsound.data frame hframe).2)

/-- After a Hello and a checkpoint. -/
theorem recovers_iff_checkpoint : ∃ s applied r, Reachable oneSession s applied ∧
    s.runtimes 1 = some r ∧ applied 1 = [bareFrame .profileCheckpoint 2] ∧
    Recovers oneSession s none 1 r.accumulator.profile (applied 1) := by
  have ha : afterHello.accepted 9 (bareFrame .profileCheckpoint 2) =
      some (1, .new oneSession, firstHello.session oneSession 1 none) :=
    State.accepted_of rfl rfl rfl (by decide)
  obtain ⟨s, x, hstep, hrevises, -, hx, hr⟩ := bareCheckpoint_received (F := oneSession) ha
  have hreach := afterHello_reachable.step (e := .receive 9 (bareFrame .profileCheckpoint 2))
    (bareFrame_wellFormed _ _) hstep
  have hhistory : afterHello.history (fun _ => []) (.receive 9 (bareFrame .profileCheckpoint 2)) =
      Function.update (fun _ => []) 1 [bareFrame .profileCheckpoint 2] := by
    rw [State.history, if_pos (.inl rfl), ha]
    rfl
  rw [hhistory] at hreach
  refine ⟨s, _, _, hreach, hr, Function.update_self .., ?_⟩
  refine (recovers_iff hreach hx hrevises.artifact hr none).mpr ⟨?_, ?_⟩
  · rw [hrevises.source]
    exact (firstHello.session_none _ _).1
  · rw [Function.update_self]
    exact List.cons_ne_nil _ _

/-- Where `launchAttach` created the session, nothing is presented after the same frames. -/
theorem attached_not_recovered : ∃ s applied x r, Reachable oneSession s applied ∧
    s.sessions 1 = some x ∧ x.artifactRelativePath = none ∧ x.status = .live ∧
    s.runtimes 1 = some r ∧ applied 1 = [bareFrame .profileCheckpoint 2] ∧
    ¬ Recovers oneSession s none 1 r.accumulator.profile (applied 1) := by
  obtain ⟨x₀, hx₀, hopen, hjournal⟩ : ∃ x₀, afterAttach.sessions 1 = some x₀ ∧
      x₀.artifactRelativePath = none ∧ x₀.journalRelativePath = none := ⟨_, rfl, rfl, rfl⟩
  have ha : afterAttach.accepted 9 (bareFrame .profileCheckpoint 2) =
      some (1, .new oneSession, x₀) := State.accepted_of rfl rfl hx₀ (by decide)
  obtain ⟨s, x, hstep, hrevises, hstatus, hx, hr⟩ := bareCheckpoint_received (F := oneSession) ha
  have hreach := afterAttach_reachable.step (e := .receive 9 (bareFrame .profileCheckpoint 2))
    (bareFrame_wellFormed _ _) hstep
  have hhistory : afterAttach.history (fun _ => [])
      (.receive 9 (bareFrame .profileCheckpoint 2)) 1 = [bareFrame .profileCheckpoint 2] := by
    rw [State.history, if_pos (.inl rfl), ha]
    rfl
  refine ⟨s, _, x, _, hreach, hx, hrevises.artifact.trans hopen, hstatus, hr, hhistory, ?_⟩
  refine not_recovers hx (hrevises.artifact.trans hopen) (fun path hp => ?_) none _ _
  rw [hrevises.journal, hjournal] at hp
  cases hp

/-- Selecting the session presents its artifact, which is there. -/
def PresentsArtifact (F : Foundation) (s : State) (id : UUID) (x : ProfileSession) : Prop :=
  ∃ s' path contents, s.step F (.select id) = .ok s' ∧ s'.shown = some (.file path) ∧
    x.artifactRelativePath = some path ∧ s.files path.directory path.name = some contents

theorem State.select_running {F : Foundation} {s : State} {id : UUID} {x : ProfileSession}
    {r : RuntimeSession} (hr : s.runtimes id = some r) :
    s.select F id x = .ok { s.setSelection id x with
      shown := some (.decodedProfile r.accumulator.profile) } := by
  have hr' : (s.setSelection id x).runtimes id = some r := hr
  rw [select, load, hr']

theorem State.select_artifact {F : Foundation} {s : State} {id : UUID} {x : ProfileSession}
    {path : RelativePath} (hr : s.runtimes id = none)
    (hpath : x.artifactRelativePath = some path) : s.select F id x =
      .ok { s.setSelection id x with shown := some (.file path) } := by
  have hr' : (s.setSelection id x).runtimes id = none := hr
  rw [select, load, hr', hpath]

theorem not_presentsArtifact {F : Foundation} {s : State} {id : UUID} {x : ProfileSession}
    {r : RuntimeSession} (hx : s.sessions id = some x) (hr : s.runtimes id = some r) :
    ¬ PresentsArtifact F s id x := by
  rintro ⟨s', path, contents, hselect, hshown, -, -⟩
  rw [State.step_select hx, State.select_running hr] at hselect
  cases hselect
  cases hshown

/-- In every run, a completed session is presented by its artifact exactly if no runtime of it is
left in memory. -/
theorem presentsArtifact_iff {F : Foundation} {s : State} {applied : UUID → List SessionFrame}
    (h : Reachable F s applied) {id : UUID} {x : ProfileSession} (hx : s.sessions id = some x)
    (hstatus : x.status = .completed) :
    PresentsArtifact F s id x ↔ s.runtimes id = none := by
  constructor
  · intro hpresents
    by_contra hrunning
    obtain ⟨r, hr⟩ := Option.ne_none_iff_exists'.mp hrunning
    exact not_presentsArtifact hx hr hpresents
  · intro hr
    have hsound := h.sound id
    obtain ⟨path, hpath⟩ := Option.ne_none_iff_exists'.mp (hsound.completed x hx hstatus)
    obtain ⟨rfl, hfile⟩ := hsound.artifact x path hx hpath
    obtain ⟨contents, hcontents⟩ := Option.ne_none_iff_exists'.mp hfile
    exact ⟨_, artifactPath id, contents,
      (State.step_select hx).trans (State.select_artifact hr hpath), rfl, hpath, hcontents⟩

def gzipProfile : List UInt8 := [31, 139, 8, 0, 0, 0, 0, 0, 0, 255, 3, 0, 0, 0, 0, 0, 0, 0, 0, 0]

def finalFrame (sequence : UInt64) : SessionFrame :=
  ⟨⟨1, 0, .finalProfile, 0, sequence, 20⟩, gzipProfile⟩

theorem finalFrame_wellFormed (sequence : UInt64) : (finalFrame sequence).WellFormed :=
  have hfits : (20 : UInt64) ≤ SessionFrameHeader.maximumPayloadLength := by decide
  ⟨rfl, hfits⟩

def afterFinal : State :=
  (afterHello.setRuntime 1 ⟨(RuntimeSession.new oneSession).accumulator, 2⟩).complete 1
    (firstHello.session oneSession 1 none) gzipProfile

theorem afterFinal_reachable : Reachable oneSession afterFinal fun _ => [] := by
  have ha : afterHello.accepted 9 (finalFrame 2) =
      some (1, .new oneSession, firstHello.session oneSession 1 none) :=
    State.accepted_of rfl rfl rfl (by decide)
  exact afterHello_reachable.step (e := .receive 9 (finalFrame 2)) (finalFrame_wellFormed 2)
    (State.receive_control nofun (by decide) ha)

/-- After a Hello, a final profile and a restart. -/
theorem presentsArtifact_iff_restarted : ∃ s applied x, Reachable oneSession s applied ∧
    s.sessions 1 = some x ∧ x.status = .completed ∧ PresentsArtifact oneSession s 1 x := by
  have hreach := afterFinal_reachable.step (e := .restart none) trivial rfl
  exact ⟨_, _, _, hreach, rfl, rfl, (presentsArtifact_iff hreach rfl rfl).mpr rfl⟩

/-- Without the restart the empty accumulation is presented, not the artifact. -/
theorem finalProfile_not_presented : ∃ s applied x s', Reachable oneSession s applied ∧
    s.sessions 1 = some x ∧ x.status = .completed ∧ s.step oneSession (.select 1) = .ok s' ∧
    s'.shown = some (.decodedProfile (RuntimeSession.new oneSession).accumulator.profile) ∧
    ¬ PresentsArtifact oneSession s 1 x :=
  ⟨afterFinal, _, _, _, afterFinal_reachable, rfl, rfl,
    (State.step_select rfl).trans (State.select_running rfl), rfl, not_presentsArtifact rfl rfl⟩

end PProfessor.Coordinator
