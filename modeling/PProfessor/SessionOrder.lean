import PProfessor.Records
import PProfessor.SessionCounts

set_option autoImplicit false

/-!
# Deltas that are overtaken

The sequence numbers grow over all connections of a publisher, and a session takes only what is
above everything it has taken. So a delta is lost if the main actor takes up a newer frame of
another connection before it, and in no other way.
-/
namespace PProfessor.Network
open Coordinator Framing Kit Records SessionStream

theorem ReadLoop.Follows.all {loop : ReadLoop} {socket : Socket} {handled : List SessionFrame}
    (h : loop.Follows socket handled) (hread : loop.consumed = socket.bytes.length)
    (hqueue : loop.queue = [])
    (hparsed : loop.closed = false ∨ ∀ f ∈ socket.begun, f.Fits)
    (hlength : ∀ f ∈ socket.begun, f.payload.length < 2 ^ 64) :
    handled = socket.frames.map WrittenFrame.received := by
  obtain ⟨done, later, hframes, hreturned, hopen⟩ := h.returned
  obtain ⟨hbytes, hfront⟩ := hopen hparsed
  rw [hqueue, List.append_nil] at hreturned
  cases later with
  | nil => rw [hframes, hreturned, List.append_nil]
  | cons f later =>
    -- a whole frame would still be in the buffer
    exfalso
    rw [hread, List.take_length, Socket.bytes, hframes, written_append, written_cons,
      List.append_assoc, List.append_assoc, List.append_right_inj] at hbytes
    have hf : f ∈ socket.begun := by
      rw [Socket.begun, hframes]
      exact List.mem_append_left _ (List.mem_append_right _ List.mem_cons_self)
    rw [← hbytes] at hfront
    cases (WrittenFrame.reads (hlength f hf)).whole _ none hfront

/-- Every byte that was accepted is read, and every frame that was parsed is handled. -/
structure Drained (y : System) : Prop where
  read : ∀ c, (y.loops c).consumed = (y.publisher.sockets c).bytes.length
  handled : ∀ c, (y.loops c).queue = []

/-- No read has failed. Only a frame of more than 256 MiB makes one fail. -/
def Parsed (y : System) : Prop :=
  ∀ c, (y.loops c).closed = false ∨ ∀ f ∈ (y.publisher.sockets c).begun, f.Fits

theorem Inv.handled_deltas {M : Setting} {y : System} (h : Inv M y) (hdrained : Drained y)
    (hparsed : Parsed y) :
    ((y.handled.map Prod.snd).filter isDelta).Perm (y.deltas.map WrittenFrame.received) := by
  refine (h.handled_perm.filter isDelta).trans (.trans (.of_eq ?_) h.deltas_perm)
  rw [List.filter_flatMap]
  apply List.flatMap_congr
  intro c _
  rw [(h.loops c).all (hdrained.read c) (hdrained.handled c) (hparsed c)
    (h.publisher.length c)]

def System.bodies (y : System) : List SessionFrame :=
  (y.handled.map Prod.snd).filter fun f => f.header.kind ≠ .hello

def sequenceOf (frame : SessionFrame) : ℕ := frame.header.sequence.toNat

theorem isDelta_ne_hello {f : SessionFrame} (h : isDelta f = true) : f.header.kind ≠ .hello := by
  unfold isDelta at h
  rw [of_decide_eq_true h]
  exact nofun

theorem bodies_deltas (y : System) :
    y.bodies.filter isDelta = (y.handled.map Prod.snd).filter isDelta := by
  rw [System.bodies, List.filter_filter]
  apply List.filter_congr
  intro f _
  cases hf : isDelta f with
  | false => rfl
  | true => simp [isDelta_ne_hello hf]

theorem present_eq (s : State) (id : UUID) (presentation : Presentation) :
    ∃ shown, s.present id presentation = { s with shown } := by
  unfold State.present
  split_ifs
  · exact ⟨_, rfl⟩
  · exact ⟨s.shown, rfl⟩

theorem take_other {F : Foundation} {frame : SessionFrame} (hdata : ¬ IsData frame)
    (accumulator : LiveProfileAccumulator) : take F accumulator frame = .ok accumulator := by
  unfold take
  split
  · rename_i hkind
    exact absurd (.inl hkind) hdata
  · rename_i hkind
    exact absurd (.inr hkind) hdata
  · rfl

theorem receiveControl_eq {F : Foundation} (s : State) (id : UUID) (x : ProfileSession)
    (frame : SessionFrame) (hx : s.sessions id = some x) :
    (s.receiveControl F id x frame).connectionSessions = s.connectionSessions ∧
      (s.receiveControl F id x frame).runtimes = s.runtimes ∧
      ∃ x', (s.receiveControl F id x frame).sessions id = some x' := by
  unfold State.receiveControl
  split
  · exact ⟨rfl, rfl, _, Function.update_self ..⟩
  · unfold State.complete
    obtain ⟨shown, hshown⟩ := present_eq
      (((s.setFile (artifactPath id) (some frame.payload)).setFile (journalPath id) none).save id _)
      id (.file (artifactPath id))
    rw [hshown]
    exact ⟨rfl, rfl, _, Function.update_self ..⟩
  · exact ⟨rfl, rfl, _, Function.update_self ..⟩
  · exact ⟨rfl, rfl, x, hx⟩

theorem receive_accepted {F : Foundation} {s s' : State} {connectionID id : UUID}
    {frame : SessionFrame} {r : RuntimeSession} {x : ProfileSession}
    (hkind : frame.header.kind ≠ .hello) (ha : s.accepted connectionID frame = some (id, r, x))
    (h : s.receive F connectionID frame = .ok s') :
    s'.connectionSessions = s.connectionSessions ∧ (∃ x', s'.sessions id = some x') ∧
      ∃ acc, s'.runtimes id = some ⟨acc, frame.header.sequence⟩ ∧
        take F r.accumulator frame = .ok acc := by
  by_cases hdata : IsData frame
  · rw [State.receive_data hdata ha] at h
    obtain ⟨acc, htake, h⟩ := Fallible.bind_eq_ok.mp h
    obtain ⟨t, ht, h⟩ := Fallible.bind_eq_ok.mp h
    obtain ⟨x', -, rfl⟩ := State.update_eq_ok (by decide) ht
    cases h
    obtain ⟨shown, hshown⟩ := present_eq ((s.setRuntime id ⟨acc, frame.header.sequence⟩).save id x')
      id (.decodedProfile acc.profile)
    rw [hshown]
    exact ⟨rfl, ⟨x', Function.update_self ..⟩, acc, Function.update_self .., htake⟩
  · rw [State.receive_control hkind hdata ha] at h
    cases h
    obtain ⟨-, -, hx, -⟩ := State.accepted_eq_some ha
    obtain ⟨hconnections, hruntimes, hsession⟩ := receiveControl_eq (F := F)
      (s.setRuntime id { r with lastSequence := frame.header.sequence }) id x frame hx
    refine ⟨hconnections, hsession, r.accumulator, ?_, take_other hdata _⟩
    rw [hruntimes]
    exact Function.update_self ..

/-- What the application has of the session is decided by the frames it took up. -/
structure Tracks (M : Setting) (id : UUID) (y : System) : Prop where
  inv : Inv M y
  greeted : ∀ c, y.handledOn c ≠ [] → y.app.connectionSessions (M.connectionID c) = some id
  applied : y.applied id = (records sequenceOf 0 y.bodies).filter fun f => IsData f
  waiting : y.handled = [] → y.app.runtimes id = none ∧
    ∀ x, y.app.sessions id = some x → x.journalRelativePath = none
  running : y.handled ≠ [] → ∃ r x, y.app.runtimes id = some r ∧ y.app.sessions id = some x ∧
    r.lastSequence.toNat = top sequenceOf 0 y.bodies ∧
    (y.applied id).foldlM (take M.foundation) (RuntimeSession.new M.foundation).accumulator =
      .ok r.accumulator

namespace Tracks

variable {M : Setting} {id : UUID} {y z : System}

theorem start {app : State} (hruntime : app.runtimes id = none)
    (hjournal : ∀ x, app.sessions id = some x → x.journalRelativePath = none) :
    Tracks M id (.start app) where
  inv := .start app
  greeted _ h := absurd rfl h
  applied := rfl
  waiting _ := ⟨hruntime, hjournal⟩
  running h := absurd rfl h

theorem of_eq (h : Tracks M id y) (hinv : Inv M z) (happ : z.app = y.app)
    (happlied : z.applied = y.applied) (hhandled : z.handled = y.handled) : Tracks M id z := by
  have hbodies : z.bodies = y.bodies := by
    rw [System.bodies, hhandled]
    rfl
  refine ⟨hinv, fun c hc => ?_, ?_, fun hnone => ?_, fun hsome => ?_⟩
  · rw [System.handledOn, hhandled] at hc
    rw [happ]
    exact h.greeted c hc
  · rw [happlied, hbodies]
    exact h.applied
  · rw [hhandled] at hnone
    rw [happ]
    exact h.waiting hnone
  · rw [hhandled] at hsome
    rw [happ, happlied, hbodies]
    exact h.running hsome

theorem bodies_handle {c : ℕ} {frame : SessionFrame} {queue : List SessionFrame} {app : State} :
    (y.handle M c frame queue app).bodies =
      y.bodies ++ if frame.header.kind ≠ .hello then [frame] else [] := by
  rw [System.bodies, System.handle_handled, List.map_append, List.filter_append]
  congr 1
  by_cases hkind : frame.header.kind = .hello <;> simp [hkind]

theorem handledOn_handle {c c' : ℕ} {frame : SessionFrame} {queue : List SessionFrame}
    {app : State} (h : (y.handle M c frame queue app).handledOn c' ≠ []) (hc : c' ≠ c) :
    y.handledOn c' ≠ [] := by
  unfold System.handledOn at h ⊢
  rw [System.handle_handled, List.filter_append, List.filter_cons_of_neg (by simpa using hc.symm),
    List.filter_nil, List.append_nil] at h
  exact h

theorem handled_ne_nil {c : ℕ} (h : y.handledOn c ≠ []) : y.handled ≠ [] := by
  intro hnil
  rw [System.handledOn, hnil] at h
  exact h rfl

/-- The rule for a Hello. -/
theorem handle_hello {c : ℕ} {frame : SessionFrame} {queue : List SessionFrame} {app : State}
    {hello : SessionHelloPayload} (h : Tracks M id y)
    (hdecode : M.foundation.decodeHello M.hello = some hello)
    (huuid : M.foundation.uuid hello.sessionId = some id)
    (hqueue : (y.loops c).queue = frame :: queue)
    (hkind : frame.header.kind = .hello) (hpayload : frame.payload = M.hello)
    (hreceive : y.app.receive M.foundation (M.connectionID c) frame = .ok app) :
    Tracks M id (y.handle M c frame queue app) := by
  have hdata : ¬ IsData frame := fun hd => hd.ne_hello hkind
  have happlied : (y.handle M c frame queue app).applied id = y.applied id := by
    refine (history_receive y.app y.applied (M.connectionID c) id frame).trans ?_
    rw [if_neg (fun hand => hdata hand.1), List.append_nil]
  have hbodies : (y.handle M c frame queue app).bodies = y.bodies := by
    rw [bodies_handle, if_neg (not_not.mpr hkind), List.append_nil]
  rw [State.receive_hello hkind, hpayload] at hreceive
  have hruntime : ∃ r x, app = ((y.app.connect (M.connectionID c) id).setRuntime id r).save id x ∧
      r.lastSequence.toNat = top sequenceOf 0 y.bodies ∧
      (y.applied id).foldlM (take M.foundation) (RuntimeSession.new M.foundation).accumulator =
        .ok r.accumulator := by
    by_cases hnone : y.handled = []
    · obtain ⟨hr, hjournal⟩ := h.waiting hnone
      have hempty : y.bodies = [] := by
        rw [System.bodies, hnone]
        rfl
      rw [h.applied, hempty]
      cases hx : y.app.sessions id with
      | none =>
        rw [State.receiveHello_new hdecode huuid hx hr] at hreceive
        cases hreceive
        exact ⟨_, _, rfl, rfl, rfl⟩
      | some x =>
        rw [State.receiveHello_launched hdecode huuid hx hr (hjournal x hx)] at hreceive
        cases hreceive
        exact ⟨_, _, rfl, rfl, rfl⟩
    · obtain ⟨r, x, hr, hx, hlast, hmerged⟩ := h.running hnone
      rw [State.receiveHello_running hdecode huuid hx hr] at hreceive
      cases hreceive
      exact ⟨r, _, rfl, hlast, hmerged⟩
  obtain ⟨r, x, rfl, hlast, hmerged⟩ := hruntime
  refine ⟨h.inv.handle hqueue _, fun c' hc' => ?_, ?_, fun hnil => ?_, fun _ => ?_⟩
  · change Function.update y.app.connectionSessions (M.connectionID c) (some id) _ = _
    by_cases heq : M.connectionID c' = M.connectionID c
    · rw [heq, Function.update_self]
    · rw [Function.update_of_ne heq]
      exact h.greeted c' (handledOn_handle hc' fun hc => heq (by rw [hc]))
  · rw [happlied, hbodies]
    exact h.applied
  · rw [System.handle_handled] at hnil
    exact absurd hnil (List.append_ne_nil_of_right_ne_nil _ (List.cons_ne_nil _ _))
  · rw [happlied, hbodies]
    exact ⟨r, x, Function.update_self .., Function.update_self .., hlast, hmerged⟩

/-- The rule for any other frame: it passes the filter or changes nothing. -/
theorem handle_body {c : ℕ} {frame : SessionFrame} {queue : List SessionFrame} {app : State}
    (h : Tracks M id y) (hqueue : (y.loops c).queue = frame :: queue)
    (hgreeted : y.handledOn c ≠ []) (hkind : frame.header.kind ≠ .hello)
    (hreceive : y.app.receive M.foundation (M.connectionID c) frame = .ok app) :
    Tracks M id (y.handle M c frame queue app) := by
  obtain ⟨r, x, hr, hx, hlast, hmerged⟩ := h.running (handled_ne_nil hgreeted)
  have hconnection := h.greeted c hgreeted
  have hbodies : (y.handle M c frame queue app).bodies = y.bodies ++ [frame] := by
    rw [bodies_handle, if_pos hkind]
  have happlied : (y.handle M c frame queue app).applied id = y.applied id ++
      if IsData frame ∧ (y.app.accepted (M.connectionID c) frame).map Prod.fst = some id
        then [frame] else [] :=
    history_receive y.app y.applied (M.connectionID c) id frame
  have hnil : (y.handle M c frame queue app).handled ≠ [] := by
    rw [System.handle_handled]
    exact List.append_ne_nil_of_right_ne_nil _ (List.cons_ne_nil _ _)
  have hpasses : r.lastSequence < frame.header.sequence ↔
      top sequenceOf 0 y.bodies < sequenceOf frame := by
    rw [UInt64.lt_iff_toNat_lt, hlast]
    rfl
  have hsame : app.connectionSessions = y.app.connectionSessions →
      ∀ c', (y.handle M c frame queue app).handledOn c' ≠ [] →
        app.connectionSessions (M.connectionID c') = some id := by
    intro heq c' hc'
    rw [heq]
    by_cases hc : c' = c
    · rw [hc]
      exact hconnection
    · exact h.greeted c' (handledOn_handle hc' hc)
  by_cases hlt : r.lastSequence < frame.header.sequence
  · have ha : y.app.accepted (M.connectionID c) frame = some (id, r, x) :=
      State.accepted_of hconnection hr hx hlt
    obtain ⟨hconnections, ⟨x', hx'⟩, acc, hacc, htake⟩ := receive_accepted hkind ha hreceive
    have htop : top sequenceOf 0 (y.bodies ++ [frame]) = sequenceOf frame := by
      rw [top_concat, max_eq_right (hpasses.mp hlt).le]
    rw [ha] at happlied
    refine ⟨h.inv.handle hqueue _, hsame hconnections, ?_, fun he => absurd he hnil, fun _ => ?_⟩
    · rw [happlied, hbodies, records_concat, if_pos (hpasses.mp hlt), List.filter_append,
        ← h.applied]
      by_cases hdata : IsData frame <;> simp [hdata]
    · refine ⟨⟨acc, frame.header.sequence⟩, x', hacc, hx', ?_, ?_⟩
      · rw [hbodies, htop]
        rfl
      · rw [happlied, List.foldlM_append, hmerged]
        by_cases hdata : IsData frame
        · rw [if_pos ⟨hdata, rfl⟩]
          change (take M.foundation r.accumulator frame >>= fun a => pure a) = _
          rw [htake]
          rfl
        · rw [if_neg fun hand => hdata hand.1]
          rw [take_other hdata] at htake
          exact htake
  · have ha : y.app.accepted (M.connectionID c) frame = none := by
      simp only [State.accepted, hconnection, hr, hx, hlt, if_false]
    rw [State.receive_none hkind ha] at hreceive
    cases hreceive
    have hrejected : ¬ top sequenceOf 0 y.bodies < sequenceOf frame := fun hlt' =>
      hlt (hpasses.mpr hlt')
    rw [ha, if_neg (fun hand => Option.some_ne_none _ hand.2.symm), List.append_nil] at happlied
    refine ⟨h.inv.handle hqueue _, hsame rfl, ?_, fun he => absurd he hnil, fun _ => ?_⟩
    · rw [happlied, hbodies, records_concat, if_neg hrejected, List.append_nil]
      exact h.applied
    · refine ⟨r, x, hr, hx, ?_, ?_⟩
      · rw [hbodies, top_concat, max_eq_left (not_lt.mp hrejected)]
        exact hlast
      · rw [happlied]
        exact hmerged

theorem step {a : Action} {hello : SessionHelloPayload} (h : Tracks M id y)
    (hdecode : M.foundation.decodeHello M.hello = some hello)
    (huuid : M.foundation.uuid hello.sessionId = some id) (hstep : Step M y a z) :
    Tracks M id z := by
  have hinv := h.inv.step hstep
  cases hstep with
  | publishUpdate =>
    unfold System.publishUpdate at hinv ⊢
    dsimp only at hinv ⊢
    split_ifs at hinv ⊢ <;> exact h.of_eq hinv rfl rfl rfl
  | send => exact h.of_eq hinv rfl rfl rfl
  | read => exact h.of_eq hinv rfl rfl rfl
  | close => exact h.of_eq hinv rfl rfl rfl
  | handle hqueue hreceive =>
    rcases h.inv.next_hello hqueue with ⟨-, hkind, hpayload⟩ | ⟨hgreeted, hkind⟩
    · exact h.handle_hello hdecode huuid hqueue hkind hpayload hreceive
    · exact h.handle_body hqueue hgreeted hkind hreceive

theorem run {actions : List Action} {hello : SessionHelloPayload} (h : Tracks M id y)
    (hdecode : M.foundation.decodeHello M.hello = some hello)
    (huuid : M.foundation.uuid hello.sessionId = some id) (hrun : Run M y actions z) :
    Tracks M id z := by
  induction hrun with
  | nil => exact h
  | snoc _ hstep ih => exact ih.step hdecode huuid hstep

end Tracks

/-- The session's accumulator is what its applied frames merge to, and the deltas among them are
those that were sent. -/
structure MergesAll (M : Setting) (id : UUID) (y : System) : Prop where
  accumulator : ∀ r, y.app.runtimes id = some r →
    (y.applied id).foldlM (take M.foundation) (RuntimeSession.new M.foundation).accumulator =
      .ok r.accumulator
  deltas : (y.merged id).Perm (y.deltas.map WrittenFrame.received)

/-- No delta was taken up behind a newer frame. -/
def Ordered (y : System) : Prop :=
  ∀ before frame after, y.bodies = before ++ frame :: after → isDelta frame = true →
    ∀ earlier ∈ before, earlier.header.sequence < frame.header.sequence

theorem Inv.handled_positive {M : Setting} {y : System} (h : Inv M y) :
    ∀ frame ∈ y.handled.map Prod.snd, 0 < sequenceOf frame := by
  intro frame hframe
  obtain ⟨c, -, hc⟩ := List.mem_flatMap.mp (h.handled_perm.mem_iff.mp hframe)
  obtain ⟨done, later, hframes, hreturned, -⟩ := (h.loops c).returned
  have hmem : frame ∈ done.map WrittenFrame.received := by
    rw [← hreturned]
    exact List.mem_append_left _ hc
  obtain ⟨f, hf, rfl⟩ := List.mem_map.mp hmem
  have hbegun : f ∈ (y.publisher.sockets c).begun := by
    rw [Socket.begun, hframes]
    exact List.mem_append_left _ (List.mem_append_left _ hf)
  exact UInt64.lt_iff_toNat_lt.mp (h.publisher.positive c f hbegun)

/-- In every run of a fresh session in which everything is read and handled, all deltas that were
sent are merged exactly if none was taken up behind a newer frame. -/
theorem deltas_merged_iff {M : Setting} {id : UUID} {hello : SessionHelloPayload}
    (hdecode : M.foundation.decodeHello M.hello = some hello)
    (huuid : M.foundation.uuid hello.sessionId = some id) {app : State}
    (hruntime : app.runtimes id = none)
    (hjournal : ∀ x, app.sessions id = some x → x.journalRelativePath = none)
    {actions : List Action} {y : System} (hrun : Run M (.start app) actions y)
    (hdrained : Drained y) (hparsed : Parsed y) : MergesAll M id y ↔ Ordered y := by
  have htracks := (Tracks.start (M := M) hruntime hjournal).run hdecode huuid hrun
  have hperm := htracks.inv.handled_deltas hdrained hparsed
  have hmerged : y.merged id = (records sequenceOf 0 y.bodies).filter isDelta := by
    rw [System.merged, htracks.applied, List.filter_filter]
    apply List.filter_congr
    intro f _
    cases hf : isDelta f with
    | false => rfl
    | true => simp [IsData, of_decide_eq_true hf]
  have hordered : Ordered y ↔ y.merged id = y.bodies.filter isDelta := by
    rw [hmerged, filter_records_eq_iff]
    constructor
    · intro h before frame after heq hdelta
      rw [top_lt_iff]
      refine ⟨?_, fun earlier he =>
        UInt64.lt_iff_toNat_lt.mp (h before frame after heq hdelta _ he)⟩
      apply htracks.inv.handled_positive
      have hmem : frame ∈ y.bodies := by
        rw [heq]
        exact List.mem_append_right _ List.mem_cons_self
      exact (List.mem_filter.mp hmem).1
    · intro h before frame after heq hdelta earlier he
      have hlt := (top_lt_iff _ _ _ _).mp (h before frame after heq hdelta)
      exact UInt64.lt_iff_toNat_lt.mpr (hlt.2 earlier he)
  rw [hordered]
  constructor
  · intro h
    rw [← bodies_deltas] at hperm
    have hlength := (h.deltas.trans hperm.symm).length_eq
    rw [hmerged] at hlength ⊢
    exact ((records_sublist sequenceOf 0 y.bodies).filter isDelta).eq_of_length hlength
  · intro h
    refine ⟨fun r hr => ?_, ?_⟩
    · by_cases hnone : y.handled = []
      · rw [(htracks.waiting hnone).1] at hr
        cases hr
      · obtain ⟨r', x, hr', -, -, hmerged⟩ := htracks.running hnone
        cases hr.symm.trans hr'
        exact hmerged
    · rw [h, bodies_deltas]
      exact hperm

theorem drained_twice {y : System} (hpublisher : y.publisher = updatedThrice.publisher)
    (hloops : ∀ c, y.loops c = { bothRead.loops c with queue := [] }) : Drained y ∧ Parsed y := by
  obtain ⟨hbytes₀, hbytes₁⟩ := updatedThrice_bytes
  refine ⟨⟨fun c => ?_, fun c => by rw [hloops]⟩, fun c => .inl ?_⟩
  · rw [hloops, hpublisher]
    rcases c with _ | _ | c
    · exact (congrArg List.length hbytes₀).symm
    · exact (congrArg List.length hbytes₁).symm
    · rfl
  · rw [hloops]
    rcases c with _ | _ | c <;> rfl

theorem greeted_received (app : State) (connectionID : UUID) (frame : SessionFrame)
    {r : RuntimeSession} {x : ProfileSession} (hkind : frame.header.kind = .hello)
    (hpayload : frame.payload = helloPayload) (hr : app.runtimes 1 = some r)
    (hx : app.sessions 1 = some x) : ∃ app', app.receive oneSession connectionID frame = .ok app' ∧
      app'.connectionSessions connectionID = some 1 ∧ app'.runtimes 1 = some r ∧
      ∃ x', app'.sessions 1 = some x' := by
  rw [State.receive_hello hkind, hpayload,
    State.receiveHello_running firstHello_decoded firstHello_uuid hx hr]
  refine ⟨_, rfl, Function.update_self .., ?_, { x with status := .live }, ?_⟩
  · simp only [State.save, State.setRuntime, Function.update_self]
  · simp only [State.save, Function.update_self]

def olderMerged (app : State) : System :=
  (bothRead.handle twoConnections 0 oldHello [olderDelta] appInOrder).handle twoConnections 0
    olderDelta [] app

def newerLast (app app' app'' : State) : System :=
  ((olderMerged app).handle twoConnections 1 newHello [newerDelta] app').handle twoConnections 1
    newerDelta [] app''

theorem newerLast_drained (app app' app'' : State) :
    Drained (newerLast app app' app'') ∧ Parsed (newerLast app app' app'') := by
  refine drained_twice rfl fun c => ?_
  simp only [newerLast, olderMerged, System.handle_loops]
  rcases c with _ | _ | c
  · rfl
  · rfl
  · simp only [Nat.add_eq_zero_iff, Nat.reduceEqDiff, and_false, if_false]
    rfl

theorem newerLast_ordered (app app' app'' : State) : Ordered (newerLast app app' app'') := by
  intro before frame after heq _ earlier hearlier
  change [olderDelta, newerDelta] = _ at heq
  rcases before with _ | ⟨first, _ | ⟨second, before⟩⟩
  · cases hearlier
  · cases heq
    cases List.mem_singleton.mp hearlier
    decide
  · have hlength := congrArg List.length heq
    simp only [List.length_cons, List.length_append, List.length_nil] at hlength
    omega

theorem newerLast_run : ∃ actions app app' app'',
    Run twoConnections (.start .initial) actions (newerLast app app' app'') := by
  obtain ⟨actions, hread⟩ := bothRead_run
  obtain ⟨acc₁, hmerged₁, hlength₁⟩ := onePayloads_merged [2] (by decide) (by decide)
  obtain ⟨acc₂, hmerged₂, hlength₂⟩ := onePayloads_merged [2, 3] (by decide) (by decide)
  have htake₁ : take oneSession (RuntimeSession.new oneSession).accumulator olderDelta =
      .ok acc₁ := (take_delta ..).trans ((bind_pure _).symm.trans hmerged₁)
  have htake₂ : take oneSession acc₁ newerDelta = .ok acc₂ := by
    have hboth : (take oneSession (RuntimeSession.new oneSession).accumulator olderDelta >>=
        fun acc => take oneSession acc newerDelta >>= pure) = .ok acc₂ := hmerged₂
    rw [htake₁] at hboth
    exact (bind_pure _).symm.trans hboth
  have haccepted : appInOrder.accepted 8 olderDelta =
      some (1, .new oneSession, firstHello.session oneSession 1 none) :=
    State.accepted_of rfl rfl rfl (by decide)
  obtain ⟨app, hreceive⟩ := delta_returns (.inr rfl) haccepted htake₁ hlength₁
  obtain ⟨-, ⟨x, hx⟩, acc, hr, htake⟩ :=
    receive_accepted (isDelta_ne_hello rfl) haccepted hreceive
  cases htake₁.symm.trans htake
  obtain ⟨app', hhello, hconnection, hr', x', hx'⟩ := greeted_received app 9 newHello rfl rfl hr hx
  have haccepted' : app'.accepted 9 newerDelta = some (1, ⟨acc₁, 2⟩, x') :=
    State.accepted_of hconnection hr' hx' (by
      change (2 : UInt64) < 5
      decide)
  obtain ⟨app'', hreceive'⟩ := delta_returns (.inr rfl) haccepted' htake₂ hlength₂
  have hfirst : Step twoConnections bothRead (.handle 0)
      (bothRead.handle twoConnections 0 oldHello [olderDelta] appInOrder) :=
    .handle rfl ((State.receive_hello rfl).trans
      (State.receiveHello_new firstHello_decoded firstHello_uuid rfl rfl))
  have holder : Step twoConnections (bothRead.handle twoConnections 0 oldHello [olderDelta]
      appInOrder) (.handle 0) (olderMerged app) := .handle rfl hreceive
  have hsecond : Step twoConnections (olderMerged app) (.handle 1)
      ((olderMerged app).handle twoConnections 1 newHello [newerDelta] app') := .handle rfl hhello
  have hnewer : Step twoConnections ((olderMerged app).handle twoConnections 1 newHello
      [newerDelta] app') (.handle 1) (newerLast app app' app'') := .handle rfl hreceive'
  exact ⟨_, app, app', app'', (((hread.snoc hfirst).snoc holder).snoc hsecond).snoc hnewer⟩

/-- In that order both deltas are merged. -/
theorem deltas_merged_iff_inOrder : ∃ actions y, Run twoConnections (.start .initial) actions y ∧
    y.deltas.length = 2 ∧ MergesAll twoConnections 1 y := by
  obtain ⟨actions, app, app', app'', hrun⟩ := newerLast_run
  obtain ⟨hdrained, hparsed⟩ := newerLast_drained app app' app''
  have hjournal : ∀ x, State.initial.sessions 1 = some x → x.journalRelativePath = none := by
    intro x hx
    cases hx
  exact ⟨actions, _, hrun, rfl, (deltas_merged_iff firstHello_decoded firstHello_uuid rfl hjournal
    hrun hdrained hparsed).mpr (newerLast_ordered app app' app'')⟩

def olderGreeted (app app' : State) : System :=
  (newerMerged app).handle twoConnections 0 oldHello [olderDelta] app'

def olderLast (app app' : State) : System :=
  (olderGreeted app app').handle twoConnections 0 olderDelta [] app'

theorem olderLast_drained (app app' : State) :
    Drained (olderLast app app') ∧ Parsed (olderLast app app') := by
  refine drained_twice rfl fun c => ?_
  simp only [olderLast, olderGreeted, newerMerged, newerGreeted, System.handle_loops]
  rcases c with _ | _ | c
  · rfl
  · rfl
  · simp only [Nat.add_eq_zero_iff, Nat.reduceEqDiff, and_false, if_false]
    rfl

/-- A delta of the older connection, taken up behind one of the newer, is never merged. -/
theorem olderDelta_lost : ∃ actions y, Run twoConnections (.start .initial) actions y ∧
    Drained y ∧ Parsed y ∧ olderDelta ∈ y.deltas.map WrittenFrame.received ∧
    y.merged 1 = [newerDelta] ∧ ¬ MergesAll twoConnections 1 y := by
  obtain ⟨app, hreceive⟩ := newerDelta_received
  obtain ⟨actions, hrun⟩ := newerMerged_run hreceive
  obtain ⟨-, ⟨x, hx⟩, acc, hr, -⟩ :=
    receive_accepted (isDelta_ne_hello rfl) newerDelta_accepted hreceive
  obtain ⟨app', hhello, hconnection, hr', x', hx'⟩ := greeted_received app 8 oldHello rfl rfl hr hx
  have hgreeted : Step twoConnections (newerMerged app) (.handle 0) (olderGreeted app app') :=
    .handle rfl hhello
  have hrejected : app'.accepted 8 olderDelta = none := by
    have hlt : ¬ newerDelta.header.sequence < olderDelta.header.sequence := by decide
    simp only [State.accepted, hconnection, hr', hx', hlt, if_false]
  have hlost : Step twoConnections (olderGreeted app app') (.handle 0) (olderLast app app') :=
    .handle rfl (State.receive_none (isDelta_ne_hello rfl) hrejected)
  have hmerged : (olderLast app app').merged 1 = [newerDelta] := by
    have hhistory : (olderLast app app').applied 1 = (newerMerged app).applied 1 := by
      refine (history_receive app' (olderGreeted app app').applied 8 1 olderDelta).trans ?_
      rw [hrejected, if_neg (fun hand => Option.some_ne_none _ hand.2.symm), List.append_nil]
      refine (history_receive app (newerMerged app).applied 8 1 oldHello).trans ?_
      rw [if_neg (fun hand => hand.1.ne_hello rfl), List.append_nil]
    rw [System.merged, hhistory]
    exact newerMerged_merged app
  obtain ⟨hdrained, hparsed⟩ := olderLast_drained app app'
  refine ⟨_, _, (hrun.snoc hgreeted).snoc hlost, hdrained, hparsed, List.mem_cons_self, hmerged,
    fun h => ?_⟩
  have hlength := h.deltas.length_eq
  rw [hmerged] at hlength
  cases hlength

end PProfessor.Network
