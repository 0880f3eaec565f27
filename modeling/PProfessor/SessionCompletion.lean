import PProfessor.SessionDelivery
import PProfessor.SessionRecovery

set_option autoImplicit false

/-!
# After the final profile

The final profile carries the publisher's last sequence number, so no other frame passes the
filter behind it. A Hello is not filtered.
-/
namespace PProfessor.Network
open Coordinator Framing Kit SessionStream

/-- The session is completed and its artifact holds the contents. -/
def Completed (app : State) (id : UUID) (contents : List UInt8) : Prop :=
  ∃ x, app.sessions id = some x ∧ x.status = .completed ∧
    x.artifactRelativePath = some (artifactPath id) ∧
    app.files id "profile.pb.gz" = some contents

theorem completed_of_view {app app' : State} {id : UUID} {contents : List UInt8}
    {applied : UUID → List SessionFrame} (h : Completed app id contents)
    (hview : app'.view applied id = app.view applied id) : Completed app' id contents := by
  obtain ⟨x, hx, hstatus, hartifact, hfile⟩ := h
  refine ⟨x, (congrArg View.session hview).trans hx, hstatus, hartifact, ?_⟩
  exact (congrFun (congrArg View.files hview) "profile.pb.gz").trans hfile

theorem receiveHello_live {F : Foundation} {app app' : State} {connectionID id : UUID}
    {payload : List UInt8} {hello : SessionHelloPayload}
    (hdecode : F.decodeHello payload = some hello) (huuid : F.uuid hello.sessionId = some id)
    (h : app.receiveHello F connectionID payload = .ok app') :
    ∃ x, app'.sessions id = some x ∧ x.status = .live := by
  simp only [State.receiveHello, hdecode, huuid] at h
  cases hensured : State.ensureRuntime F (app.connect connectionID id) id
      ((app.connect connectionID id).sessions id) with
  | error e =>
    rw [hensured] at h
    cases h
  | ok t =>
    rw [hensured] at h
    cases h
    refine ⟨_, Function.update_self .., ?_⟩
    cases (app.connect connectionID id).sessions id <;> rfl

theorem finalProfile_completes {F : Foundation} {app app' : State} {connectionID id : UUID}
    {frame : SessionFrame} {r : RuntimeSession} {x : ProfileSession}
    (hkind : frame.header.kind = .finalProfile)
    (ha : app.accepted connectionID frame = some (id, r, x))
    (h : app.receive F connectionID frame = .ok app') :
    Completed app' id frame.payload ∧
      app'.runtimes id = some ⟨r.accumulator, frame.header.sequence⟩ := by
  have hdata : ¬ IsData frame := by
    rintro (hk | hk) <;> rw [hkind] at hk <;> cases hk
  rw [State.receive_control (by rw [hkind]; exact nofun) hdata ha] at h
  cases h
  unfold State.receiveControl
  rw [hkind]
  dsimp only
  have hview : State.view ((app.setRuntime id ⟨r.accumulator, frame.header.sequence⟩).complete
      id x frame.payload) (fun _ => []) id = _ := State.view_complete_self frame.payload
  rw [State.view_setRuntime_self] at hview
  refine ⟨⟨_, congrArg View.session hview, rfl, rfl, ?_⟩, congrArg View.runtime hview⟩
  refine (congrFun (congrArg View.files hview) "profile.pb.gz").trans ?_
  dsimp only
  rw [Function.update_of_ne (by decide), Function.update_self]

/-- The publisher is done, and the session's runtime is at its last sequence number. -/
structure Sealed (M : Setting) (id : UUID) (contents : List UInt8) (y : System) : Prop where
  inv : Inv M y
  finished : y.finished = true
  completed : Completed y.app id contents
  runtime : ∃ r, y.app.runtimes id = some r ∧ y.publisher.sequence ≤ r.lastSequence

namespace Sealed

variable {M : Setting} {id : UUID} {contents : List UInt8} {y z : System}

theorem handle {c : ℕ} {frame : SessionFrame} {queue : List SessionFrame} {app : State}
    (h : Sealed M id contents y) (hqueue : (y.loops c).queue = frame :: queue)
    (hreceive : y.app.receive M.foundation (M.connectionID c) frame = .ok app)
    (hkind : frame.header.kind ≠ .hello) (applied : UUID → List SessionFrame) :
    app.view applied id = y.app.view applied id := by
  cases ha : y.app.accepted (M.connectionID c) frame with
  | none =>
    rw [State.receive_none hkind ha] at hreceive
    cases hreceive
    rfl
  | some found =>
    obtain ⟨target, r, x⟩ := found
    refine State.receive_of_ne hkind ha ?_ hreceive applied
    rintro rfl
    obtain ⟨-, hr, -, hlt⟩ := State.accepted_eq_some ha
    obtain ⟨r', hr', hle⟩ := h.runtime
    cases hr.symm.trans hr'
    obtain ⟨f, hf, rfl⟩ := h.inv.mem_sentFrames hqueue hkind
    have hsequence := SessionPublisher.sentFrames_sequence h.inv.publisher hf
    exact UInt64.not_le.mpr hlt (UInt64.le_trans hsequence hle)

theorem step {a : Action} (h : Sealed M id contents y) (hstep : Step M y a z)
    (hkind : ∀ e ∈ z.handled.drop y.handled.length, e.2.header.kind ≠ .hello) :
    Sealed M id contents z := by
  have hinv := h.inv.step hstep
  cases hstep with
  | publishUpdate hopen =>
    rw [h.finished] at hopen
    cases hopen
  | send hopen =>
    rw [h.finished] at hopen
    cases hopen
  | read => exact ⟨hinv, h.finished, h.completed, h.runtime⟩
  | close => exact ⟨hinv, h.finished, h.completed, h.runtime⟩
  | @handle c frame queue app hqueue hreceive =>
    have hframe : frame.header.kind ≠ .hello := by
      refine hkind (c, frame) ?_
      rw [System.handle_handled, List.drop_left]
      exact List.mem_singleton_self _
    have hview := h.handle hqueue hreceive hframe y.applied
    obtain ⟨r, hr, hle⟩ := h.runtime
    exact ⟨hinv, h.finished, completed_of_view h.completed hview,
      ⟨r, (congrArg View.runtime hview).trans hr, hle⟩⟩

theorem run {actions : List Action} (h : Sealed M id contents y) (hrun : Run M y actions z)
    (hkind : ∀ e ∈ z.handled.drop y.handled.length, e.2.header.kind ≠ .hello) :
    Sealed M id contents z := by
  induction hrun with
  | nil => exact h
  | @snoc actions a z z' hrun hstep ih =>
    obtain ⟨later, hlater⟩ := hrun.handled_initial
    obtain ⟨last, hlast⟩ := hstep.handled_initial
    rw [← hlast, ← hlater, List.append_assoc, List.drop_left] at hkind
    refine (ih ?_).step hstep ?_
    · rw [← hlater, List.drop_left]
      exact fun e he => hkind e (List.mem_append_left _ he)
    · rw [← hlast, List.drop_left]
      exact fun e he => hkind e (List.mem_append_right _ he)

end Sealed

theorem hello_uncompletes {M : Setting} {id : UUID} {contents : List UInt8} {y z : System}
    {a : Action} {hello : SessionHelloPayload}
    (hdecode : M.foundation.decodeHello M.hello = some hello)
    (huuid : M.foundation.uuid hello.sessionId = some id) (hinv : Inv M y) (h : Step M y a z)
    (hcompleted : Completed z.app id contents) :
    ∀ e ∈ z.handled.drop y.handled.length, e.2.header.kind ≠ .hello := by
  cases h with
  | publishUpdate =>
    unfold System.publishUpdate
    dsimp only
    split_ifs <;> (change ∀ e ∈ y.handled.drop _, _; simp)
  | send =>
    change ∀ e ∈ y.handled.drop _, _
    simp
  | read =>
    change ∀ e ∈ y.handled.drop _, _
    simp
  | close =>
    change ∀ e ∈ y.handled.drop _, _
    simp
  | @handle c frame queue app hqueue hreceive =>
    intro e he hkind
    rw [System.handle_handled, List.drop_left] at he
    cases List.mem_singleton.mp he
    obtain ⟨-, -, hpayload⟩ := (hinv.next_hello hqueue).resolve_right fun h => h.2 hkind
    rw [State.receive_hello hkind, hpayload] at hreceive
    obtain ⟨x, hx, hlive⟩ := receiveHello_live hdecode huuid hreceive
    obtain ⟨x', hx', hstatus, -⟩ := hcompleted
    cases hx.symm.trans hx'
    rw [hlive] at hstatus
    cases hstatus

/-- In every run, the session stays completed with its artifact through all that follows its final
profile, exactly if no Hello is handled behind it. -/
theorem completion_final_iff {M : Setting} {id : UUID} {hello : SessionHelloPayload}
    (hdecode : M.foundation.decodeHello M.hello = some hello)
    (huuid : M.foundation.uuid hello.sessionId = some id) {app : State} {before : List Action}
    {y z w : System} (hrun : Run M (.start app) before y) {c : ℕ} {frame : SessionFrame}
    {queue : List SessionFrame} (hqueue : (y.loops c).queue = frame :: queue)
    (hkind : frame.header.kind = .finalProfile) {r : RuntimeSession} {x : ProfileSession}
    (ha : y.app.accepted (M.connectionID c) frame = some (id, r, x))
    (hstep : Step M y (.handle c) z) {after : List Action} (hlater : Run M z after w) :
    (∀ between rest w', after = between ++ rest → Run M z between w' → Run M w' rest w →
      Completed w'.app id frame.payload) ↔
    ∀ e ∈ w.handled.drop z.handled.length, e.2.header.kind ≠ .hello := by
  have hinv := (Inv.start app).run hrun
  have hsealed : Sealed M id frame.payload z := by
    have hinv' := hinv.step hstep
    cases hstep with
    | @handle _ frame' queue' app' hqueue' hreceive =>
      cases hqueue.symm.trans hqueue'
      obtain ⟨hcompleted, hruntime⟩ := finalProfile_completes hkind ha hreceive
      obtain ⟨f, hf, rfl⟩ := hinv.mem_sentFrames hqueue (by rw [hkind]; exact nofun)
      have hfkind : f.kind = .finalProfile := SessionFrameKind.ofFrameKind_injective hkind
      obtain ⟨hfinished, hsequence⟩ := hinv.final f hf hfkind
      refine ⟨hinv', hfinished, hcompleted, _, hruntime, ?_⟩
      change y.publisher.sequence ≤ f.sequence
      rw [hsequence]
      exact UInt64.le_refl _
  constructor
  · intro hcompleted
    induction hlater with
    | nil => simp
    | @snoc actions a w w' hrun' hstep' ih =>
      obtain ⟨later, hlater⟩ := hrun'.handled_initial
      obtain ⟨last, hlast⟩ := hstep'.handled_initial
      have hlastHello := hello_uncompletes hdecode huuid ((hsealed.inv).run hrun') hstep'
        (hcompleted _ [] w' (List.append_nil _).symm (hrun'.snoc hstep') .nil)
      have hbefore := ih fun between rest v heq hv hw => hcompleted between (rest ++ [a]) v
        (by rw [heq, List.append_assoc]) hv (hw.snoc hstep')
      rw [← hlast, List.drop_left] at hlastHello
      rw [← hlater, List.drop_left] at hbefore
      rw [← hlast, ← hlater, List.append_assoc, List.drop_left]
      intro e he
      rcases List.mem_append.mp he with he | he
      · exact hbefore e he
      · exact hlastHello e he
  · intro hnone between rest w' heq hbetween hrest
    refine (hsealed.run hbetween ?_).completed
    obtain ⟨later, hlater⟩ := hbetween.handled_initial
    obtain ⟨more, hmore⟩ := hrest.handled_initial
    rw [← hmore, ← hlater, List.append_assoc, List.drop_left] at hnone
    rw [← hlater, List.drop_left]
    exact fun e he => hnone e (List.mem_append_left _ he)

def twoConnections : Setting where
  foundation := oneSession
  hello := helloPayload
  helloLength := by
    rw [helloPayload_length]
    decide
  connectionID c := .ofNat 128 (8 + c)
  freqHz := 1000

def fine : Answers := ⟨.connected .whole, .whole⟩

/-- A Hello and a bare frame on connection 0, a write that fails at once, then a Hello and the
final profile on connection 1. -/
def sentTwice : System :=
  (((System.start .initial).send twoConnections .finalizing [] fine).send twoConnections
    .heartbeat [] ⟨.connected .whole, .cut 0 .timedOut⟩).send twoConnections .finalProfile
    gzipProfile fine

def onFirst : List WrittenFrame := [⟨.hello, 1, helloPayload⟩, ⟨.finalizing, 2, []⟩]

def onSecond : List WrittenFrame := [⟨.hello, 4, helloPayload⟩, ⟨.finalProfile, 5, gzipProfile⟩]

theorem sentTwice_first : (sentTwice.publisher.sockets 0).bytes =
    written WrittenFrame.bytes onFirst := by
  have hsocket : sentTwice.publisher.sockets 0 = ⟨onFirst, some (⟨.heartbeat, 3, []⟩, 0)⟩ := rfl
  rw [hsocket, Socket.bytes]
  exact List.append_nil _

theorem sentTwice_second : (sentTwice.publisher.sockets 1).bytes =
    written WrittenFrame.bytes onSecond := by
  have hsocket : sentTwice.publisher.sockets 1 = ⟨onSecond, none⟩ := rfl
  rw [hsocket, Socket.bytes]
  exact List.append_nil _

theorem hello_fits (sequence : UInt64) :
    (⟨.hello, sequence, helloPayload⟩ : WrittenFrame).Fits := by
  change helloPayload.length ≤ _
  rw [helloPayload_length]
  decide

theorem onFirst_fits : ∀ f ∈ onFirst, f.Fits := by
  rw [onFirst, List.forall_mem_cons, List.forall_mem_cons]
  exact ⟨hello_fits 1, Nat.zero_le _, nofun⟩

theorem onSecond_fits : ∀ f ∈ onSecond, f.Fits := by
  have hgzip : (⟨.finalProfile, 5, gzipProfile⟩ : WrittenFrame).Fits := by
    change (20 : ℕ) ≤ 256 * 1024 * 1024
    decide
  rw [onSecond, List.forall_mem_cons, List.forall_mem_cons]
  exact ⟨hello_fits 4, hgzip, nofun⟩

theorem onFirst_length : (written WrittenFrame.bytes onFirst).length = 172 := by
  rw [onFirst, written_cons, written_singleton, List.length_append, WrittenFrame.length_bytes,
    WrittenFrame.length_bytes, helloPayload_length]
  rfl

theorem onSecond_length : (written WrittenFrame.bytes onSecond).length = 192 := by
  rw [onSecond, written_cons, written_singleton, List.length_append, WrittenFrame.length_bytes,
    WrittenFrame.length_bytes, helloPayload_length]
  rfl

theorem fine_short (payload : List UInt8) :
    fine.connecting.Short twoConnections.hello ∧ fine.writing.Short payload := by
  refine ⟨fun write h accepted kind hcut => ?_, fun accepted kind hcut => nomatch hcut⟩
  cases h
  cases hcut

theorem sentTwice_run : ∃ actions, Run twoConnections (.start .initial) actions sentTwice := by
  have hcut : (WriteOutcome.cut 0 .timedOut).Short [] := fun accepted kind h => by
    cases h
    decide
  have hfinalizing : Step twoConnections (.start .initial) (.send .finalizing [] fine) _ :=
    .send rfl nofun nofun (by decide) (fine_short []).1 (fine_short []).2
  have hheartbeat : Step twoConnections ((System.start .initial).send twoConnections .finalizing []
      fine) (.send .heartbeat [] ⟨.connected .whole, .cut 0 .timedOut⟩) _ :=
    .send rfl nofun nofun (by decide) (fine_short []).1 hcut
  have hfinal : Step twoConnections (((System.start .initial).send twoConnections .finalizing []
      fine).send twoConnections .heartbeat [] ⟨.connected .whole, .cut 0 .timedOut⟩)
      (.send .finalProfile gzipProfile fine) sentTwice :=
    .send rfl nofun nofun (by decide) (fine_short gzipProfile).1 (fine_short gzipProfile).2
  exact ⟨_, ((Run.nil.snoc hfinalizing).snoc hheartbeat).snoc hfinal⟩

def readAll (frames : List WrittenFrame) : ReadLoop :=
  ⟨(written WrittenFrame.bytes frames).length, .init, false, frames.map WrittenFrame.received⟩

theorem readAll_step {M : Setting} {y : System} {c : ℕ} {frames : List WrittenFrame}
    (hnew : y.loops c = .new)
    (hbytes : (y.publisher.sockets c).bytes = written WrittenFrame.bytes frames)
    (hfits : ∀ f ∈ frames, f.Fits) (hpos : 0 < (written WrittenFrame.bytes frames).length)
    (hle : (written WrittenFrame.bytes frames).length ≤ 64 * 1024) :
    Step M y (.read c (written WrittenFrame.bytes frames).length)
      (y.setLoop c (readAll frames)) := by
  have hread : (y.loops c).read (y.publisher.sockets c).bytes
      (written WrittenFrame.bytes frames).length = readAll frames := by
    rw [hnew, hbytes]
    exact ReadLoop.read_written hfits
  rw [← hread]
  refine .read (by rw [hnew]; rfl) hpos hle ?_
  rw [hnew, hbytes]
  exact (Nat.zero_add _).le

def readTwice : System := (sentTwice.setLoop 0 (readAll onFirst)).setLoop 1 (readAll onSecond)

theorem readTwice_run : ∃ actions, Run twoConnections (.start .initial) actions readTwice := by
  obtain ⟨actions, hsent⟩ := sentTwice_run
  have hfirst : Step twoConnections sentTwice _ (sentTwice.setLoop 0 (readAll onFirst)) :=
    readAll_step rfl sentTwice_first onFirst_fits (by rw [onFirst_length]; decide)
      (by rw [onFirst_length]; decide)
  have hsecond : Step twoConnections (sentTwice.setLoop 0 (readAll onFirst)) _ readTwice :=
    readAll_step rfl sentTwice_second onSecond_fits (by rw [onSecond_length]; decide)
      (by rw [onSecond_length]; decide)
  exact ⟨_, (hsent.snoc hfirst).snoc hsecond⟩

def oldHello : SessionFrame := WrittenFrame.received ⟨.hello, 1, helloPayload⟩

def oldFinalizing : SessionFrame := WrittenFrame.received ⟨.finalizing, 2, []⟩

def newHello : SessionFrame := WrittenFrame.received ⟨.hello, 4, helloPayload⟩

def newFinal : SessionFrame := WrittenFrame.received ⟨.finalProfile, 5, gzipProfile⟩

def appAfterFinal : State :=
  (afterHello.setRuntime 1 ⟨(RuntimeSession.new oneSession).accumulator, 5⟩).complete 1
    (firstHello.session oneSession 1 none) gzipProfile

def afterNewHello : System :=
  readTwice.handle twoConnections 1 newHello [newFinal] afterHello

def afterNewFinal : System := afterNewHello.handle twoConnections 1 newFinal [] appAfterFinal

theorem newHello_step : Step twoConnections readTwice (.handle 1) afterNewHello :=
  .handle rfl ((State.receive_hello rfl).trans
    (State.receiveHello_new firstHello_decoded firstHello_uuid rfl rfl))

theorem newFinal_step : Step twoConnections afterNewHello (.handle 1) afterNewFinal := by
  have ha : afterHello.accepted 9 newFinal =
      some (1, .new oneSession, firstHello.session oneSession 1 none) :=
    State.accepted_of rfl rfl rfl (by decide)
  exact .handle rfl (State.receive_control nofun (by decide) ha)

/-- A Hello still waiting on the older connection makes the completed session live again. -/
theorem oldHello_reopens : ∃ actions y z w, Run twoConnections (.start .initial) actions y ∧
    Step twoConnections y (.handle 1) z ∧ Completed z.app 1 gzipProfile ∧
    Step twoConnections z (.handle 0) w ∧ ¬ Completed w.app 1 gzipProfile ∧
    ∃ x, w.app.sessions 1 = some x ∧ x.status = .live := by
  obtain ⟨actions, hread⟩ := readTwice_run
  have hreopened : Step twoConnections afterNewFinal (.handle 0) _ := .handle rfl
    ((State.receive_hello rfl).trans
      (State.receiveHello_running firstHello_decoded firstHello_uuid rfl rfl))
  refine ⟨_, _, _, _, hread.snoc newHello_step, newFinal_step, ⟨_, rfl, rfl, rfl, rfl⟩,
    hreopened, ?_, ⟨_, rfl, rfl⟩⟩
  rintro ⟨x, hx, hstatus, -⟩
  cases hx
  cases hstatus

def appInOrder : State :=
  ((State.initial.connect 8 1).setRuntime 1 (.new oneSession)).save 1
    (firstHello.session oneSession 1 none)

def appReconnected : State :=
  ((appInOrder.connect 9 1).setRuntime 1 (.new oneSession)).save 1
    { firstHello.session oneSession 1 none with status := .live }

def reconnected : System :=
  (readTwice.handle twoConnections 0 oldHello [oldFinalizing] appInOrder).handle twoConnections 1
    newHello [newFinal] appReconnected

theorem reconnected_run : ∃ actions, Run twoConnections (.start .initial) actions reconnected := by
  obtain ⟨actions, hread⟩ := readTwice_run
  have hold : Step twoConnections readTwice (.handle 0)
      (readTwice.handle twoConnections 0 oldHello [oldFinalizing] appInOrder) :=
    .handle rfl ((State.receive_hello rfl).trans
      (State.receiveHello_new firstHello_decoded firstHello_uuid rfl rfl))
  have hnew : Step twoConnections
      (readTwice.handle twoConnections 0 oldHello [oldFinalizing] appInOrder) (.handle 1)
      reconnected :=
    .handle rfl ((State.receive_hello rfl).trans
      (State.receiveHello_running firstHello_decoded firstHello_uuid rfl rfl))
  exact ⟨_, (hread.snoc hold).snoc hnew⟩

def appFinished : State :=
  (appReconnected.setRuntime 1 ⟨(RuntimeSession.new oneSession).accumulator, 5⟩).complete 1
    { firstHello.session oneSession 1 none with status := .live } gzipProfile

def finished : System := reconnected.handle twoConnections 1 newFinal [] appFinished

def overtaken : System := finished.handle twoConnections 0 oldFinalizing [] appFinished

/-- A frame that the final profile has overtaken is rejected. -/
theorem completion_final_iff_overtaken : Completed overtaken.app 1 gzipProfile := by
  obtain ⟨actions, hrun⟩ := reconnected_run
  have ha : reconnected.app.accepted (twoConnections.connectionID 1) newFinal =
      some (1, .new oneSession, { firstHello.session oneSession 1 none with status := .live }) :=
    State.accepted_of rfl rfl rfl (by decide)
  have hfinal : Step twoConnections reconnected (.handle 1) finished :=
    .handle rfl (State.receive_control nofun (by decide) ha)
  have hrejected : finished.app.accepted 8 oldFinalizing = none := rfl
  have hovertaken : Step twoConnections finished (.handle 0) overtaken :=
    .handle rfl (State.receive_none nofun hrejected)
  refine (completion_final_iff firstHello_decoded firstHello_uuid hrun rfl rfl ha hfinal
    (Run.nil.snoc hovertaken)).mpr ?_ _ [] _ (List.append_nil _).symm (Run.nil.snoc hovertaken) .nil
  rw [overtaken, System.handle_handled, List.drop_left]
  intro e he hhello
  cases List.mem_singleton.mp he
  cases hhello

end PProfessor.Network
