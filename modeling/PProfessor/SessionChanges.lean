import PProfessor.SessionCoordinator

set_option autoImplicit false

/-!
# What a step of the coordinator does to one session

A step touches the stored session, the runtime and the files of one identifier, except that
a restart drops every runtime. `Change` lists what can happen to them.
-/
namespace PProfessor.Coordinator
open Kit Framing

/-- The frames that `take` merges and `appendJournal` writes. -/
def IsData (frame : SessionFrame) : Prop :=
  frame.header.kind = .profileCheckpoint ∨ frame.header.kind = .profileDelta

instance (frame : SessionFrame) : Decidable (IsData frame) := inferInstanceAs (Decidable (_ ∨ _))

namespace State

/-- The data frames accepted for each session since it was created, after one more event. -/
def history (s : State) (applied : UUID → List SessionFrame) : Event → UUID → List SessionFrame
  | .receive connectionID frame =>
    if IsData frame then
      match s.accepted connectionID frame with
      | some (id, _) => Function.update applied id (applied id ++ [frame])
      | none => applied
    else applied
  | .delete id => Function.update applied id []
  | _ => applied

end State

/-- The runs of the coordinator, with the data frames accepted on the way. -/
inductive Reachable (F : Foundation) : State → (UUID → List SessionFrame) → Prop where
  | initial : Reachable F .initial fun _ => []
  | step {s s' : State} {applied : UUID → List SessionFrame} {e : Event} :
      Reachable F s applied → e.Possible s → s.step F e = .ok s' →
        Reachable F s' (s.history applied e)

structure View where
  session : Option ProfileSession
  runtime : Option RuntimeSession
  files : String → Option (List UInt8)
  applied : List SessionFrame

def State.view (s : State) (applied : UUID → List SessionFrame) (id : UUID) : View :=
  ⟨s.sessions id, s.runtimes id, s.files id, applied id⟩

structure Revises (x x' : ProfileSession) : Prop where
  source : x'.source = x.source
  artifact : x'.artifactRelativePath = x.artifactRelativePath
  journal : x'.journalRelativePath = x.journalRelativePath
  status : x'.status ≠ .completed

section
variable (F : Foundation) (id : UUID)

/-- The frames `replayJournal` finds at a path, if it is the session's journal. -/
def View.Recorded (v : View) (path : RelativePath) (frames : List SessionFrame) : Prop :=
  path = journalPath id → ∃ data, v.files "live.journal" = some data ∧
    (SessionFrameParser.init.append data).1 = .ok frames

/-- `replayJournal` finds nothing at the session's path. -/
def View.Unrecorded (v : View) (x : ProfileSession) : Prop :=
  x.journalRelativePath = some (journalPath id) →
    ∀ data frames, v.files "live.journal" = some data →
      (SessionFrameParser.init.append data).1 ≠ .ok frames

inductive Change : View → View → Prop where
  | revised {v : View} {x x' : ProfileSession} : v.session = some x → Revises x x' →
      Change v { v with session := some x' }
  | raised {v : View} {r : RuntimeSession} {sequence : UInt64} : v.runtime = some r →
      r.lastSequence ≤ sequence → Change v { v with runtime := some ⟨r.accumulator, sequence⟩ }
  | replayed {v : View} {x : ProfileSession} {path : RelativePath} {frames : List SessionFrame}
      {r : RuntimeSession} : v.runtime = none → v.session = some x →
      x.journalRelativePath = some path → v.Recorded id path frames →
      frames.foldlM (RuntimeSession.replay F) (.new F) = .ok r →
      Change v { v with runtime := some r }
  | started {v : View} {x : ProfileSession} : v.runtime = none → v.session = some x →
      v.Unrecorded id x →
      Change v { v with runtime := some (.new F) }
  | merged {v : View} {x x' : ProfileSession} {r : RuntimeSession}
      {accumulator : LiveProfileAccumulator} {frame : SessionFrame} : v.session = some x →
      Revises x x' → v.runtime = some r → frame.WellFormed → IsData frame →
      r.lastSequence < frame.header.sequence → take F r.accumulator frame = .ok accumulator →
      Change v {
        session := some x'
        runtime := some ⟨accumulator, frame.header.sequence⟩
        files := Function.update v.files "live.journal"
          (some ((v.files "live.journal").getD [] ++ frame.bytes))
        applied := v.applied ++ [frame] }
  | completed {v : View} {x : ProfileSession} {contents : List UInt8} : v.session = some x →
      Change v { v with
        session := some { x with
          artifactRelativePath := some (artifactPath id)
          journalRelativePath := none
          status := .completed }
        files := Function.update (Function.update v.files "profile.pb.gz" (some contents))
          "live.journal" none }
  | opened {v : View} {x : ProfileSession} : v.session = none → x.source ≠ .appAttach →
      x.artifactRelativePath = none → x.journalRelativePath = some (journalPath id) →
      x.status ≠ .completed →
      Change v { v with session := some x, runtime := some (v.runtime.getD (.new F)) }
  | launched {v : View} {x : ProfileSession} : v.session = none → x.source = .appAttach →
      x.artifactRelativePath = none → x.journalRelativePath = none → x.status ≠ .completed →
      Change v { v with session := some x }
  | imported {v : View} {x : ProfileSession} {contents : List UInt8} : v.session = none →
      x.artifactRelativePath = some (artifactPath id) →
      Change v { v with
        session := some x
        files := Function.update v.files "profile.pb.gz" (some contents) }
  | removed {v : View} : Change v ⟨none, none, fun _ => none, []⟩
  | forgotten {v : View} : Change v { v with runtime := none }

end

namespace State

variable {s : State} {applied : UUID → List SessionFrame} {id target : UUID}

theorem view_save_self (session : ProfileSession) :
    (s.save id session).view applied id = { s.view applied id with session := some session } := by
  simp [view, save]

theorem view_save_of_ne (h : id ≠ target) (session : ProfileSession) :
    (s.save target session).view applied id = s.view applied id := by
  simp [view, save, h]

theorem view_setRuntime_self (runtime : RuntimeSession) :
    (s.setRuntime id runtime).view applied id =
      { s.view applied id with runtime := some runtime } := by
  simp [view, setRuntime]

theorem view_setRuntime_of_ne (h : id ≠ target) (runtime : RuntimeSession) :
    (s.setRuntime target runtime).view applied id = s.view applied id := by
  simp [view, setRuntime, h]

theorem view_setFile_self (name : String) (contents : Option (List UInt8)) :
    (s.setFile ⟨id, name⟩ contents).view applied id =
      { s.view applied id with
        files := Function.update (s.view applied id).files name contents } := by
  simp [view, setFile]

theorem view_setFile_of_ne {path : RelativePath} (h : id ≠ path.directory)
    (contents : Option (List UInt8)) :
    (s.setFile path contents).view applied id = s.view applied id := by
  simp [view, setFile, h]

theorem view_appendJournal_self (frame : SessionFrame) :
    (s.appendJournal id frame).view applied id =
      { s.view applied id with
        files := Function.update (s.view applied id).files "live.journal"
          (some (((s.view applied id).files "live.journal").getD [] ++ frame.bytes)) } :=
  view_setFile_self ..

theorem view_present (presentation : Presentation) :
    (s.present target presentation).view applied id = s.view applied id := by
  rw [present]
  split_ifs <;> rfl

end State

/-! ## What each handler does to a session -/

theorem State.accepted_eq_some {s : State} {connectionID id : UUID} {frame : SessionFrame}
    {runtime : RuntimeSession} {session : ProfileSession}
    (h : s.accepted connectionID frame = some (id, runtime, session)) :
    s.connectionSessions connectionID = some id ∧ s.runtimes id = some runtime ∧
      s.sessions id = some session ∧ runtime.lastSequence < frame.header.sequence := by
  unfold accepted at h
  cases hc : s.connectionSessions connectionID with
  | none => simp [hc] at h
  | some sessionID =>
    cases hr : s.runtimes sessionID with
    | none => simp [hc, hr] at h
    | some r =>
      cases hx : s.sessions sessionID with
      | none => simp [hc, hr, hx] at h
      | some x =>
        simp only [hc, hr, hx] at h
        split_ifs at h with hlt
        cases h
        exact ⟨rfl, hr, hx, hlt⟩

theorem State.accepted_of {s : State} {connectionID id : UUID} {frame : SessionFrame}
    {runtime : RuntimeSession} {session : ProfileSession}
    (hconnection : s.connectionSessions connectionID = some id)
    (hruntime : s.runtimes id = some runtime) (hsession : s.sessions id = some session)
    (hlt : runtime.lastSequence < frame.header.sequence) :
    s.accepted connectionID frame = some (id, runtime, session) := by
  simp only [accepted, hconnection, hruntime, hsession, hlt, if_true]

section
variable {F : Foundation}

/-- `replayJournal` finds nothing and changes nothing, or sets the runtime to what the frames of
the file come to. -/
theorem State.replayJournal_cases {s s' : State} {path : RelativePath} {id : UUID}
    {profile : Option DecodedProfile} (h : s.replayJournal F path id = .ok (profile, s')) :
    (profile = none ∧ s' = s ∧ ∀ data frames, s.files path.directory path.name = some data →
        (SessionFrameParser.init.append data).1 ≠ .ok frames) ∨
      ∃ data frames runtime, s.files path.directory path.name = some data ∧
        (SessionFrameParser.init.append data).1 = .ok frames ∧
        frames.foldlM (RuntimeSession.replay F) (.new F) = .ok runtime ∧
        profile = some runtime.accumulator.profile ∧ s' = s.setRuntime id runtime := by
  unfold replayJournal at h
  cases hdata : s.files path.directory path.name with
  | none =>
    rw [hdata] at h
    cases h
    exact .inl ⟨rfl, rfl, fun _ _ hd => nomatch hd⟩
  | some data =>
    rw [hdata] at h
    dsimp only at h
    cases hframes : (SessionFrameParser.init.append data).1 with
    | error e =>
      rw [hframes] at h
      cases h
      refine .inl ⟨rfl, rfl, fun d frames hd => ?_⟩
      cases hd
      rw [hframes]
      exact nofun
    | ok frames =>
      rw [hframes] at h
      obtain ⟨runtime, hruntime, h⟩ := Fallible.bind_eq_ok.mp h
      cases h
      exact .inr ⟨data, frames, runtime, rfl, hframes, hruntime, rfl, rfl⟩

variable {s s' : State} {applied : UUID → List SessionFrame} {id : UUID}

/-- A Hello leaves the runtime there is, or sets the replayed one, or starts a new one. -/
theorem State.ensureRuntime_cases {existingSession : Option ProfileSession}
    (h : s.ensureRuntime F id existingSession = .ok s') :
    (∃ runtime, s.runtimes id = some runtime ∧ s' = s.setRuntime id runtime) ∨
    s.runtimes id = none ∧
      ((∃ path data frames runtime,
          existingSession.bind ProfileSession.journalRelativePath = some path ∧
          s.files path.directory path.name = some data ∧
          (SessionFrameParser.init.append data).1 = .ok frames ∧
          frames.foldlM (RuntimeSession.replay F) (.new F) = .ok runtime ∧
          s' = s.setRuntime id runtime) ∨
        s' = s.setRuntime id (.new F) ∧
          ∀ path data frames, existingSession.bind ProfileSession.journalRelativePath = some path →
            s.files path.directory path.name = some data →
            (SessionFrameParser.init.append data).1 ≠ .ok frames) := by
  unfold ensureRuntime at h
  cases hruntime : s.runtimes id with
  | some runtime =>
    simp only [hruntime, Except.map, Option.getD_some] at h
    cases h
    exact .inl ⟨runtime, rfl, rfl⟩
  | none =>
    right
    cases hpath : existingSession.bind ProfileSession.journalRelativePath with
    | none =>
      simp only [hruntime, hpath, Except.map, Option.getD_none] at h
      cases h
      exact ⟨rfl, .inr ⟨rfl, fun _ _ _ hp => nomatch hp⟩⟩
    | some path =>
      simp only [hruntime, hpath] at h
      cases hreplay : s.replayJournal F path id with
      | error e =>
        rw [hreplay] at h
        cases h
      | ok replayed =>
        obtain ⟨profile, t⟩ := replayed
        rw [hreplay] at h
        simp only [Except.map] at h
        refine ⟨rfl, ?_⟩
        rcases replayJournal_cases hreplay with ⟨-, rfl, hnone⟩ |
          ⟨data, frames, runtime, hdata, hframes, hfold, -, rfl⟩
        · rw [hruntime] at h
          cases h
          right
          refine ⟨rfl, fun p data frames hp => ?_⟩
          cases hp
          exact hnone data frames
        · cases h
          left
          refine ⟨path, data, frames, runtime, rfl, hdata, hframes, hfold, ?_⟩
          simp [setRuntime]

theorem State.ensureRuntime_sets {existingSession : Option ProfileSession}
    (h : s.ensureRuntime F id existingSession = .ok s') :
    ∃ runtime, s' = s.setRuntime id runtime := by
  rcases ensureRuntime_cases h with ⟨runtime, -, rfl⟩ | ⟨-, ⟨_, _, _, runtime, -, -, -, -, rfl⟩ |
    ⟨rfl, -⟩⟩
  exacts [⟨runtime, rfl⟩, ⟨runtime, rfl⟩, ⟨.new F, rfl⟩]

theorem SessionHelloPayload.session_none (hello : SessionHelloPayload) (F : Foundation)
    (id : UUID) : (hello.session F id none).source ≠ .appAttach ∧
      (hello.session F id none).artifactRelativePath = none ∧
      (hello.session F id none).journalRelativePath = some (journalPath id) ∧
      (hello.session F id none).status = .live := by
  refine ⟨?_, rfl, rfl, rfl⟩
  change (if _ then ProfileSessionSource.runtime
    else if _ then ProfileSessionSource.cliRun else .cliAttach) ≠ _
  split_ifs <;> exact nofun

theorem SessionHelloPayload.session_some (hello : SessionHelloPayload) (F : Foundation)
    (id : UUID) (x : ProfileSession) : Revises x (hello.session F id (some x)) :=
  ⟨rfl, rfl, rfl, nofun⟩

theorem State.opened_change {hello : SessionHelloPayload} (hx : s.sessions id = none)
    (h : s.ensureRuntime F id none = .ok s') :
    Change F id (s.view applied id) ((s'.save id (hello.session F id none)).view applied id) := by
  obtain ⟨hsource, hartifact, hjournal, hstatus⟩ := hello.session_none F id
  have hruntime : s' = s.setRuntime id ((s.runtimes id).getD (.new F)) := by
    rcases ensureRuntime_cases h with ⟨runtime, hr, rfl⟩ | ⟨hr, ⟨_, _, _, _, hp, -⟩ | ⟨rfl, -⟩⟩
    · rw [hr, Option.getD_some]
    · cases hp
    · rw [hr, Option.getD_none]
  rw [hruntime, view_save_self, view_setRuntime_self]
  exact .opened hx hsource hartifact hjournal (by rw [hstatus]; exact nofun)

theorem State.reopened_change {hello : SessionHelloPayload} {x : ProfileSession}
    (hx : s.sessions id = some x) (h : s.ensureRuntime F id (some x) = .ok s') :
    Relation.ReflTransGen (Change F id) (s.view applied id)
      ((s'.save id (hello.session F id (some x))).view applied id) := by
  rw [view_save_self]
  have hrevises := hello.session_some F id x
  rcases ensureRuntime_cases h with ⟨runtime, hr, rfl⟩ | ⟨hr, ⟨path, data, frames, runtime, hp,
    hdata, hframes, hfold, rfl⟩ | ⟨rfl, hnone⟩⟩
  · have hsame : (s.setRuntime id runtime).view applied id = s.view applied id := by
      rw [view_setRuntime_self, view, hr]
    rw [hsame]
    exact .single (.revised hx hrevises)
  · rw [view_setRuntime_self]
    have hrecorded : (s.view applied id).Recorded id path frames := by
      rintro rfl
      exact ⟨data, hdata, hframes⟩
    exact .tail (.single (.replayed hr hx hp hrecorded hfold)) (.revised hx hrevises)
  · rw [view_setRuntime_self]
    exact .tail (.single (.started hr hx fun hp data frames => hnone _ data frames hp))
      (.revised hx hrevises)

theorem State.receiveHello_change {connectionID : UUID} {payload : List UInt8}
    (h : s.receiveHello F connectionID payload = .ok s') :
    Relation.ReflTransGen (Change F id) (s.view applied id) (s'.view applied id) := by
  unfold receiveHello at h
  split at h
  · cases h
    exact .refl
  split at h
  · cases h
    exact .refl
  rename_i hello _ _ target _
  dsimp only at h
  generalize ht : s.connect connectionID target = t at h
  have hview : s.view applied id = t.view applied id := by
    rw [← ht]
    rfl
  have hsession : s.sessions target = t.sessions target := by
    rw [← ht]
    rfl
  rw [hview]
  rw [← hsession] at h
  cases hensure : t.ensureRuntime F target (s.sessions target) with
  | error e =>
    rw [hensure] at h
    cases h
  | ok t' =>
    rw [hensure] at h
    cases h
    by_cases hid : id = target
    · subst hid
      cases hx : s.sessions id with
      | none =>
        rw [hx] at hensure hsession
        exact .single (opened_change hsession.symm hensure)
      | some x =>
        rw [hx] at hensure hsession
        exact reopened_change hsession.symm hensure
    · obtain ⟨runtime, rfl⟩ := ensureRuntime_sets hensure
      rw [view_save_of_ne hid, view_setRuntime_of_ne hid]

theorem State.receiveHello_new {connectionID : UUID} {payload : List UInt8}
    {hello : SessionHelloPayload} (hdecode : F.decodeHello payload = some hello)
    (huuid : F.uuid hello.sessionId = some id) (hx : s.sessions id = none)
    (hr : s.runtimes id = none) : s.receiveHello F connectionID payload =
      .ok (((s.connect connectionID id).setRuntime id (.new F)).save id
        (hello.session F id none)) := by
  have hx' : (s.connect connectionID id).sessions id = none := hx
  have hr' : (s.connect connectionID id).runtimes id = none := hr
  simp only [receiveHello, hdecode, huuid, hx', ensureRuntime, hr', Option.bind_none, Except.map,
    Option.getD_none]

theorem State.receiveHello_running {connectionID : UUID} {payload : List UInt8}
    {hello : SessionHelloPayload} {x : ProfileSession} {r : RuntimeSession}
    (hdecode : F.decodeHello payload = some hello) (huuid : F.uuid hello.sessionId = some id)
    (hx : s.sessions id = some x) (hr : s.runtimes id = some r) :
    s.receiveHello F connectionID payload =
      .ok (((s.connect connectionID id).setRuntime id r).save id { x with status := .live }) := by
  have hx' : (s.connect connectionID id).sessions id = some x := hx
  have hr' : (s.connect connectionID id).runtimes id = some r := hr
  simp only [receiveHello, hdecode, huuid, hx', ensureRuntime, hr', Except.map, Option.getD_some,
    SessionHelloPayload.session]

theorem State.receiveHello_launched {connectionID : UUID} {payload : List UInt8}
    {hello : SessionHelloPayload} {x : ProfileSession}
    (hdecode : F.decodeHello payload = some hello) (huuid : F.uuid hello.sessionId = some id)
    (hx : s.sessions id = some x) (hr : s.runtimes id = none)
    (hjournal : x.journalRelativePath = none) : s.receiveHello F connectionID payload =
      .ok (((s.connect connectionID id).setRuntime id (.new F)).save id
        { x with status := .live }) := by
  have hx' : (s.connect connectionID id).sessions id = some x := hx
  have hr' : (s.connect connectionID id).runtimes id = none := hr
  simp only [receiveHello, hdecode, huuid, hx', ensureRuntime, hr', Option.bind_some, hjournal,
    Except.map, Option.getD_none, SessionHelloPayload.session]

variable {connectionID target : UUID} {frame : SessionFrame} {r : RuntimeSession}
  {x : ProfileSession}

theorem State.receive_hello (hkind : frame.header.kind = .hello) :
    s.receive F connectionID frame = s.receiveHello F connectionID frame.payload := if_pos hkind

theorem IsData.ne_hello (h : IsData frame) : frame.header.kind ≠ .hello := by
  rcases h with hkind | hkind <;> rw [hkind] <;> exact nofun

theorem State.receive_data (hdata : IsData frame)
    (ha : s.accepted connectionID frame = some (target, r, x)) :
    s.receive F connectionID frame = (do
      let accumulator ← take F r.accumulator frame
      let t ← (s.setRuntime target ⟨accumulator, frame.header.sequence⟩).update target x
        accumulator.profile .live
      .ok (t.appendJournal target frame)) := by
  rw [receive, if_neg hdata.ne_hello, ha]
  rcases hdata with hkind | hkind <;> rw [hkind]

theorem State.update_eq_ok {profile : DecodedProfile} {status : ProfileSessionStatus}
    (hstatus : status ≠ .completed) (h : s.update target x profile status = .ok s') :
    ∃ x', Revises x x' ∧ s' = (s.save target x').present target (.decodedProfile profile) := by
  obtain ⟨count, -, h⟩ := Fallible.bind_eq_ok.mp h
  cases h
  exact ⟨{ x with status, durationNanos := profile.durationNanos, sampleCount := count },
    ⟨rfl, rfl, rfl, hstatus⟩, rfl⟩

theorem State.view_history_self (frames : List SessionFrame) :
    s.view (Function.update applied id frames) id =
      { s.view applied id with applied := frames } := by
  rw [view, Function.update_self, view]

theorem State.view_history_of_ne (hid : id ≠ target) (frames : List SessionFrame) :
    s.view (Function.update applied target frames) id = s.view applied id := by
  rw [view, Function.update_of_ne hid, view]

theorem State.data_change (hframe : frame.WellFormed) (hdata : IsData frame)
    (ha : s.accepted connectionID frame = some (id, r, x))
    (h : s.receive F connectionID frame = .ok s') :
    Change F id (s.view applied id)
      (s'.view (Function.update applied id (applied id ++ [frame])) id) := by
  obtain ⟨-, hr, hx, hlt⟩ := accepted_eq_some ha
  rw [receive_data hdata ha] at h
  obtain ⟨accumulator, htake, h⟩ := Fallible.bind_eq_ok.mp h
  obtain ⟨t, ht, h⟩ := Fallible.bind_eq_ok.mp h
  obtain ⟨x', hrevises, rfl⟩ := update_eq_ok (by decide) ht
  cases h
  rw [view_appendJournal_self, view_present, view_save_self, view_setRuntime_self,
    view_history_self]
  exact .merged hx hrevises hr hframe hdata hlt htake

theorem State.receive_control (hkind : frame.header.kind ≠ .hello) (hdata : ¬ IsData frame)
    (ha : s.accepted connectionID frame = some (target, r, x)) :
    s.receive F connectionID frame = .ok ((s.setRuntime target { r with
      lastSequence := frame.header.sequence }).receiveControl F target x frame) := by
  rw [receive, if_neg hkind, ha]
  dsimp only
  split
  · rename_i hk
    exact absurd (.inl hk) hdata
  · rename_i hk
    exact absurd (.inr hk) hdata
  · rfl

theorem State.view_complete_self (contents : List UInt8) :
    (s.complete id x contents).view applied id = { s.view applied id with
      session := some { x with
        artifactRelativePath := some (artifactPath id)
        journalRelativePath := none
        status := .completed }
      files := Function.update (Function.update (s.files id) "profile.pb.gz" (some contents))
        "live.journal" none } := by
  rw [complete, view_present, view_save_self, journalPath, view_setFile_self, artifactPath,
    view_setFile_self]
  rfl

theorem State.receiveControl_change (hx : s.sessions id = some x) :
    Relation.ReflGen (Change F id) (s.view applied id)
      ((s.receiveControl F id x frame).view applied id) := by
  unfold receiveControl
  split
  · rw [view_save_self]
    exact .single (.revised hx ⟨rfl, rfl, rfl, nofun⟩)
  · rw [view_complete_self]
    exact .single (.completed hx)
  · change Relation.ReflGen _ _ ((s.save id _).view applied id)
    rw [view_save_self]
    exact .single (.revised hx ⟨rfl, rfl, rfl, nofun⟩)
  · exact .refl

theorem State.control_change (hkind : frame.header.kind ≠ .hello) (hdata : ¬ IsData frame)
    (ha : s.accepted connectionID frame = some (id, r, x))
    (h : s.receive F connectionID frame = .ok s') :
    Relation.ReflTransGen (Change F id) (s.view applied id) (s'.view applied id) := by
  obtain ⟨-, hr, hx, hlt⟩ := accepted_eq_some ha
  rw [receive_control hkind hdata ha] at h
  cases h
  have hraised : Change F id (s.view applied id)
      ((s.setRuntime id { r with lastSequence := frame.header.sequence }).view applied id) := by
    rw [view_setRuntime_self]
    exact .raised hr (UInt64.le_of_lt hlt)
  have hx' : (s.setRuntime id { r with
      lastSequence := frame.header.sequence }).sessions id = some x := hx
  exact (Relation.ReflTransGen.single hraised).trans (receiveControl_change hx').to_reflTransGen

theorem State.receiveControl_of_ne (hid : id ≠ target) :
    (s.receiveControl F target x frame).view applied id = s.view applied id := by
  unfold receiveControl
  split
  · rw [view_save_of_ne hid]
  · rw [complete, view_present, view_save_of_ne hid, journalPath, view_setFile_of_ne hid,
      artifactPath, view_setFile_of_ne hid]
  · change (s.save target _).view applied id = _
    rw [view_save_of_ne hid]
  · rfl

theorem State.receive_of_ne (hkind : frame.header.kind ≠ .hello)
    (ha : s.accepted connectionID frame = some (target, r, x)) (hid : id ≠ target)
    (h : s.receive F connectionID frame = .ok s') (applied : UUID → List SessionFrame) :
    s'.view applied id = s.view applied id := by
  by_cases hdata : IsData frame
  · rw [receive_data hdata ha] at h
    obtain ⟨accumulator, -, h⟩ := Fallible.bind_eq_ok.mp h
    obtain ⟨t, ht, h⟩ := Fallible.bind_eq_ok.mp h
    obtain ⟨x', -, rfl⟩ := update_eq_ok (by decide) ht
    cases h
    rw [appendJournal, view_setFile_of_ne hid, view_present, view_save_of_ne hid,
      view_setRuntime_of_ne hid]
  · rw [receive_control hkind hdata ha] at h
    cases h
    rw [receiveControl_of_ne hid, view_setRuntime_of_ne hid]

theorem State.receive_none (hkind : frame.header.kind ≠ .hello)
    (ha : s.accepted connectionID frame = none) : s.receive F connectionID frame = .ok s := by
  rw [receive, if_neg hkind, ha]

theorem State.receive_change (hframe : frame.WellFormed)
    (h : s.receive F connectionID frame = .ok s') :
    Relation.ReflTransGen (Change F id) (s.view applied id)
      (s'.view (s.history applied (.receive connectionID frame)) id) := by
  by_cases hkind : frame.header.kind = .hello
  · have hdata : ¬ IsData frame := fun hd => hd.ne_hello hkind
    rw [receive_hello hkind] at h
    rw [history, if_neg hdata]
    exact receiveHello_change h
  · cases ha : s.accepted connectionID frame with
    | none =>
      rw [receive_none hkind ha] at h
      cases h
      rw [history, ha]
      split_ifs <;> exact .refl
    | some found =>
      obtain ⟨target, r, x⟩ := found
      rw [history, ha]
      by_cases hid : id = target
      · subst hid
        by_cases hdata : IsData frame
        · rw [if_pos hdata]
          exact .single (data_change hframe hdata ha h)
        · rw [if_neg hdata]
          exact control_change hkind hdata ha h
      · have hsame := receive_of_ne hkind ha hid h applied
        dsimp only
        split_ifs
        · rw [view_history_of_ne hid, hsame]
        · rw [hsame]

theorem State.load_change (hx : s.sessions target = some x) (h : s.load F target x = .ok s') :
    Relation.ReflGen (Change F id) (s.view applied id) (s'.view applied id) := by
  unfold load at h
  split at h
  · cases h
    exact .refl
  · cases h
    exact .refl
  · rename_i path hr hartifact hp
    obtain ⟨⟨profile, t⟩, hreplay, h⟩ := Fallible.bind_eq_ok.mp h
    have hview : s'.view applied id = t.view applied id := by
      dsimp only at h
      split at h <;> cases h <;> rfl
    rw [hview]
    rcases replayJournal_cases hreplay with ⟨-, rfl, -⟩ |
      ⟨data, frames, runtime, hdata, hframes, hfold, -, rfl⟩
    · exact .refl
    · by_cases hid : id = target
      · subst hid
        rw [view_setRuntime_self]
        have hrecorded : (s.view applied id).Recorded id path frames := by
          rintro rfl
          exact ⟨data, hdata, hframes⟩
        exact .single (.replayed hr hx hp hrecorded hfold)
      · rw [view_setRuntime_of_ne hid]
  · cases h
    exact .refl

theorem State.select_change (hx : s.sessions target = some x)
    (h : s.select F target x = .ok s') :
    Relation.ReflGen (Change F id) (s.view applied id) (s'.view applied id) :=
  load_change (s := s.setSelection target x) hx h

theorem State.importProfile_change {displayName : String} {contents : List UInt8}
    (hx : s.sessions target = none) :
    Relation.ReflGen (Change F id) (s.view applied id)
      ((s.importProfile target displayName contents).view applied id) := by
  change Relation.ReflGen _ _ (((s.setFile _ _).save target _).view applied id)
  by_cases hid : id = target
  · subst hid
    rw [view_save_self, artifactPath, view_setFile_self]
    exact .single (.imported hx rfl)
  · rw [view_save_of_ne hid, artifactPath, view_setFile_of_ne hid]

theorem State.launchAttach_change {process : AttachProcessInfo} {frequency : Int64}
    {failure : Option String} (hx : s.sessions target = none) :
    Relation.ReflTransGen (Change F id) (s.view applied id)
      ((s.launchAttach target process frequency failure).view applied id) := by
  unfold launchAttach
  dsimp only
  by_cases hid : id = target
  · subst hid
    split
    · rw [view_save_self]
      exact .single (.launched hx rfl rfl rfl ProfileSessionStatus.noConfusion)
    · rw [view_save_self, view_save_self]
      exact .single (.launched hx rfl rfl rfl nofun)
  · split
    · rw [view_save_of_ne hid]
    · rw [view_save_of_ne hid, view_save_of_ne hid]

theorem State.delete_change :
    Relation.ReflGen (Change F id) (s.view applied id)
      ((s.delete target).view (Function.update applied target []) id) := by
  by_cases hid : id = target
  · subst hid
    have hview : (s.delete id).view (Function.update applied id []) id =
        ⟨none, none, fun _ => none, []⟩ := by
      simp [view, delete]
    rw [hview]
    exact .single .removed
  · have hview : (s.delete target).view (Function.update applied target []) id =
        s.view applied id := by
      simp [view, delete, hid]
    rw [hview]

theorem State.captureTerminated_change {status : Int32} {message : Option String} :
    Relation.ReflGen (Change F id) (s.view applied id)
      ((s.captureTerminated target status message).view applied id) := by
  unfold captureTerminated
  split
  · exact .refl
  · rename_i x hx
    split_ifs
    · change Relation.ReflGen _ _ ((s.save target _).view applied id)
      by_cases hid : id = target
      · subst hid
        rw [view_save_self]
        exact .single (.revised hx ⟨rfl, rfl, rfl, nofun⟩)
      · rw [view_save_of_ne hid]
    · exact .refl

theorem State.interrupted_cases (x : ProfileSession) :
    interrupted x = x ∨ Revises x (interrupted x) := by
  unfold interrupted
  split_ifs
  · exact .inr ⟨rfl, rfl, rfl, nofun⟩
  · exact .inl rfl

theorem State.restart_change {failure : Option String} :
    Relation.ReflTransGen (Change F id) (s.view applied id)
      ((s.restart failure).view applied id) := by
  have hforgotten : Relation.ReflTransGen (Change F id) (s.view applied id)
      { s.view applied id with runtime := none } := .single .forgotten
  cases failure with
  | some description => exact hforgotten
  | none =>
    cases hx : s.sessions id with
    | none =>
      have hview : (s.restart none).view applied id =
          { s.view applied id with runtime := none } := by
        simp [view, restart, initial, hx]
      rw [hview]
      exact hforgotten
    | some x =>
      have hview : (s.restart none).view applied id =
          { s.view applied id with session := some (interrupted x), runtime := none } := by
        simp [view, restart, initial, hx]
      rw [hview]
      rcases interrupted_cases x with hsame | hrevises
      · rw [hsame, ← hx]
        exact hforgotten
      · exact hforgotten.tail (.revised hx hrevises)

theorem State.step_changes {e : Event} (hpossible : e.Possible s) (h : s.step F e = .ok s') :
    Relation.ReflTransGen (Change F id) (s.view applied id)
      (s'.view (s.history applied e) id) := by
  cases e with
  | receive connectionID frame => exact receive_change hpossible h
  | select target =>
    unfold State.step at h
    dsimp only at h
    cases hx : s.sessions target with
    | some x =>
      rw [hx] at h
      exact (select_change hx h).to_reflTransGen
    | none =>
      rw [hx] at h
      cases h
      exact .refl
  | importProfile target displayName contents =>
    cases h
    exact (importProfile_change hpossible).to_reflTransGen
  | delete target =>
    cases h
    exact delete_change.to_reflTransGen
  | launchAttach target process frequency failure =>
    cases h
    exact launchAttach_change hpossible
  | captureTerminated target status message =>
    cases h
    exact captureTerminated_change.to_reflTransGen
  | restart failure =>
    cases h
    exact restart_change

end

end PProfessor.Coordinator
