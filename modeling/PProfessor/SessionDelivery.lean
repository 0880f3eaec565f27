import PProfessor.SessionNetwork

set_option autoImplicit false

/-!
# Delivery

A read loop hands over frames that were written whole on its connection, in order and each once,
however the connection is cut. So what the main actor takes up is some of what was sent.
-/
namespace PProfessor.Network
open Capture Coordinator Framing KeyedSum Kit LiveView Publishing SessionStream

/-- The frames handed over so far are the first of the connection's. As long as no parse has
failed, what the loop has consumed are these frames and an unfinished one. -/
structure ReadLoop.Follows (loop : ReadLoop) (socket : Socket) (handled : List SessionFrame) :
    Prop where
  consumed : loop.consumed ≤ socket.bytes.length
  returned : ∃ done later, socket.frames = done ++ later ∧
    handled ++ loop.queue = done.map WrittenFrame.received ∧
    ((loop.closed = false ∨ ∀ f ∈ socket.begun, f.Fits) →
      socket.bytes.take loop.consumed = written WrittenFrame.bytes done ++ loop.parser.buffer ∧
        SessionFrameParser.reader.front loop.parser.buffer = .ok none)

namespace ReadLoop.Follows

variable {loop : ReadLoop} {socket socket' : Socket} {handled : List SessionFrame}

theorem new (socket : Socket) : ReadLoop.new.Follows socket [] where
  consumed := Nat.zero_le _
  returned := ⟨[], socket.frames, rfl, rfl, fun _ => ⟨rfl, rfl⟩⟩

theorem grows (h : loop.Follows socket handled) (hgrows : socket.Grows socket') :
    loop.Follows socket' handled where
  consumed := h.consumed.trans hgrows.bytes.length_le
  returned := by
    obtain ⟨done, later, hframes, hreturned, hopen⟩ := h.returned
    obtain ⟨more, hmore⟩ := hgrows.frames
    obtain ⟨bytes, hbytes⟩ := hgrows.bytes
    refine ⟨done, later ++ more, ?_, hreturned, fun hor => ?_⟩
    · rw [← hmore, hframes, List.append_assoc]
    · rw [← hbytes, List.take_append_of_le_length h.consumed]
      exact hopen (hor.imp id fun hfits f hf => hfits f (hgrows.begun f hf))

theorem close (h : loop.Follows socket handled) :
    ReadLoop.Follows { loop with closed := true } socket handled where
  consumed := h.consumed
  returned := by
    obtain ⟨done, later, hframes, hreturned, hopen⟩ := h.returned
    refine ⟨done, later, hframes, hreturned, fun hor => hopen (.inr ?_)⟩
    rcases hor with hclosed | hfits
    · cases hclosed
    · exact hfits

theorem handle {frame : SessionFrame} {queue : List SessionFrame}
    (h : loop.Follows socket handled) (hqueue : loop.queue = frame :: queue) :
    ReadLoop.Follows { loop with queue } socket (handled ++ [frame]) where
  consumed := h.consumed
  returned := by
    obtain ⟨done, later, hframes, hreturned, hopen⟩ := h.returned
    refine ⟨done, later, hframes, ?_, hopen⟩
    rw [hqueue] at hreturned
    rw [← hreturned, List.append_assoc]
    rfl

theorem bytes_initial (socket : Socket) :
    socket.bytes <+: written WrittenFrame.bytes socket.begun := by
  rw [Socket.bytes, Socket.begun, written_append]
  refine (List.prefix_append_right_inj _).mpr ?_
  cases socket.cut with
  | none => exact List.nil_prefix
  | some cut =>
    change cut.1.bytes.take cut.2 <+: written WrittenFrame.bytes [cut.1]
    rw [written_singleton]
    exact List.take_prefix ..

theorem done_frames {done later : List WrittenFrame}
    (hcut : ∀ f accepted, socket.cut = some (f, accepted) → accepted < f.bytes.length)
    (hbegun : socket.begun = done ++ later)
    (hbytes : written WrittenFrame.bytes done <+: socket.bytes) :
    ∃ later, socket.frames = done ++ later := by
  cases hc : socket.cut with
  | none =>
    refine ⟨later, ?_⟩
    rw [← hbegun, Socket.begun, hc]
    exact (List.append_nil _).symm
  | some cut =>
    obtain ⟨frame, accepted⟩ := cut
    rw [Socket.begun, hc] at hbegun
    change socket.frames ++ [frame] = _ at hbegun
    cases later using List.reverseRecOn with
    | nil =>
      rw [List.append_nil] at hbegun
      have hlength := hbytes.length_le
      have haccepted := hcut frame accepted hc
      rw [← hbegun, written_append, written_singleton, Socket.bytes, hc, List.length_append,
        List.length_append, List.length_take] at hlength
      omega
    | append_singleton later last =>
      rw [← List.append_assoc] at hbegun
      exact ⟨later, (List.append_inj' hbegun rfl).1⟩

/-- The rule for one `read`. -/
theorem read {count : ℕ} (h : loop.Follows socket handled) (hopen : loop.closed = false)
    (hcount : loop.consumed + count ≤ socket.bytes.length)
    (hlength : ∀ f ∈ socket.begun, f.payload.length < 2 ^ 64)
    (hcut : ∀ f accepted, socket.cut = some (f, accepted) → accepted < f.bytes.length) :
    (loop.read socket.bytes count).Follows socket handled := by
  obtain ⟨done, later, hframes, hreturned, hrelated⟩ := h.returned
  obtain ⟨hconsumed, hfront⟩ := hrelated (.inl hopen)
  have htake : socket.bytes.take (loop.consumed + count) = written WrittenFrame.bytes done ++
      (loop.parser.buffer ++ (socket.bytes.drop loop.consumed).take count) := by
    rw [List.take_add, hconsumed, List.append_assoc]
  have hbegun : socket.begun = done ++ (later ++ (socket.cut.map Prod.fst).toList) := by
    rw [Socket.begun, hframes, List.append_assoc]
  have hprefix : loop.parser.buffer ++ (socket.bytes.drop loop.consumed).take count <+:
      written WrittenFrame.bytes (later ++ (socket.cut.map Prod.fst).toList) := by
    have hall := (List.take_prefix (loop.consumed + count) socket.bytes).trans
      (bytes_initial socket)
    rw [htake, hbegun, written_append] at hall
    exact (List.prefix_append_right_inj _).mp hall
  have hmem : ∀ f ∈ later ++ (socket.cut.map Prod.fst).toList, f ∈ socket.begun := by
    intro f hf
    rw [hbegun]
    exact List.mem_append_right _ hf
  unfold ReadLoop.read SessionFrameParser.append
  cases hdrain : SessionFrameParser.reader.drain
    (loop.parser.buffer ++ (socket.bytes.drop loop.consumed).take count) with
  | mk result rest =>
    cases result with
    | error e =>
      refine ⟨hcount, done, later, hframes, hreturned, fun hor => ?_⟩
      rcases hor with hclosed | hfits
      · cases hclosed
      · have hwritten := drain_written (fun f hf => (hfits f (hmem f hf)).recognises) rfl hprefix
        rw [hdrain] at hwritten
        cases congrArg Prod.fst hwritten
    | ok frames =>
      obtain ⟨done', later', hsplit, rfl, hbuffer⟩ := drain_reads
        (fun f hf => WrittenFrame.reads (hlength f (hmem f hf))) rfl hprefix hdrain
      rw [hsplit, ← List.append_assoc] at hbegun
      have hdone : written WrittenFrame.bytes (done ++ done') <+: socket.bytes := by
        refine List.IsPrefix.trans ?_ (List.take_prefix (loop.consumed + count) socket.bytes)
        rw [htake, hbuffer, written_append, ← List.append_assoc]
        exact List.prefix_append ..
      obtain ⟨more, hmore⟩ := done_frames hcut hbegun hdone
      refine ⟨hcount, done ++ done', more, hmore, ?_, fun _ => ⟨?_, ?_⟩⟩
      · change handled ++ (loop.queue ++ _) = _
        rw [← List.append_assoc, hreturned, List.map_append]
      · change socket.bytes.take (loop.consumed + count) = _ ++ rest
        rw [htake, hbuffer, written_append, List.append_assoc]
      · exact Reader.front_drained hdrain

end ReadLoop.Follows

theorem ReadLoop.read_written {frames : List WrittenFrame} (hfits : ∀ f ∈ frames, f.Fits) :
    ReadLoop.new.read (written WrittenFrame.bytes frames)
        (written WrittenFrame.bytes frames).length =
      ⟨(written WrittenFrame.bytes frames).length, .init, false,
        frames.map WrittenFrame.received⟩ := by
  have hdrain := drain_written (fun f hf => (hfits f hf).recognises) rfl
    (List.prefix_refl (written WrittenFrame.bytes frames))
  rw [complete_all, List.drop_length] at hdrain
  have hchunk : ReadLoop.new.parser.buffer ++ ((written WrittenFrame.bytes frames).drop
      ReadLoop.new.consumed).take (written WrittenFrame.bytes frames).length =
      written WrittenFrame.bytes frames := by
    change [] ++ ((written WrittenFrame.bytes frames).drop 0).take _ = _
    rw [List.nil_append, List.drop_zero, List.take_length]
  unfold ReadLoop.read SessionFrameParser.append
  rw [hchunk, hdrain]
  dsimp only [ReadLoop.new]
  rw [Nat.zero_add, List.nil_append]
  rfl

def System.handledOn (y : System) (connection : ℕ) : List SessionFrame :=
  (y.handled.filter fun x => x.1 = connection).map Prod.snd

/-- The frame holds the delta that was sent for a snapshot. -/
def Carries (freqHz : UInt32) (f : WrittenFrame) (x : RawProfile × RawProfile) : Prop :=
  x.2.Regular ∧ ∃ publication, Encoded freqHz publication x.2 f.payload

structure Inv (M : Setting) (y : System) : Prop where
  publisher : y.publisher.Sound M.hello
  loops : ∀ c, (y.loops c).Follows (y.publisher.sockets c) (y.handledOn c)
  deltas : (y.publisher.sentFrames.filter fun f => f.kind = .profileDelta).Perm y.deltas
  final : ∀ f ∈ y.publisher.sentFrames, f.kind = .finalProfile →
    y.finished = true ∧ f.sequence = y.publisher.sequence
  telescopes : Telescopes y.progress
  carried : List.Forall₂ (Carries M.freqHz) y.deltas y.progress.sent

namespace Inv

variable {M : Setting} {y : System}

theorem start (app : State) : Inv M (.start app) where
  publisher := SessionPublisher.new_sound
  loops _ := .new _
  deltas := .refl _
  final _ hf := nomatch hf
  telescopes := .start
  carried := .nil

theorem unsent {p : SessionPublisher} (h : Inv M y) (hopen : y.finished = false)
    (hleads : y.publisher.Leads M.hello p) (hsent : p.sentFrames = y.publisher.sentFrames)
    (finished : Bool) : Inv M { y with publisher := p, finished } where
  publisher := hleads.sound
  loops c := (h.loops c).grows (hleads.grows c)
  deltas := by
    dsimp only
    rw [hsent]
    exact h.deltas
  final f hf hkind := by
    dsimp only at hf
    rw [hsent] at hf
    have hfinished := (h.final f hf hkind).1
    rw [hopen] at hfinished
    cases hfinished
  telescopes := h.telescopes
  carried := h.carried

theorem send {kind : FrameKind} {payload : List UInt8} {answers : Answers} (h : Inv M y)
    (hopen : y.finished = false) (hhello : kind ≠ .hello) (hdelta : kind ≠ .profileDelta)
    (hpayload : payload.length < 2 ^ 64) (hconnecting : answers.connecting.Short M.hello)
    (hwriting : answers.writing.Short payload) : Inv M (y.send M kind payload answers) := by
  have hleads := SessionPublisher.send_leads h.publisher M.helloLength hhello hpayload hconnecting
    hwriting
  rcases SessionPublisher.send_sentFrames payload answers.writing h.publisher M.helloLength hhello
    hconnecting with ⟨-, hperm⟩ | ⟨-, hsame⟩
  · refine ⟨hleads.sound, fun c => (h.loops c).grows (hleads.grows c), ?_, fun f hf hkind => ?_,
      h.telescopes, h.carried⟩
    · refine (hperm.filter _).trans ?_
      have hdeltas := h.deltas
      rw [List.filter_append]
      change List.Perm _ y.deltas
      simpa [hdelta] using hdeltas
    · rcases List.mem_append.mp (hperm.mem_iff.mp hf) with hf | hf
      · have hfinished := (h.final f hf hkind).1
        rw [hopen] at hfinished
        cases hfinished
      · cases List.mem_singleton.mp hf
        exact ⟨decide_eq_true hkind, rfl⟩
  · exact h.unsent hopen hleads hsame _

/-- The rule for a delta. -/
theorem publishDelta {publication : Publication} {delta : RawProfile} {payload : List UInt8}
    {answers : Answers} (h : Inv M y) (hopen : y.finished = false)
    (hregular : publication.snapshot.Regular)
    (horder : Enumerates publication.order publication.snapshot.stackSeries)
    (hgrows : publication.snapshot.Grows fun key =>
      (y.progress.published.map fun p => p.observations key).getD [])
    (hdelta : (y.progress.cursor.delta publication.snapshot publication.order).1 = some delta)
    (hencoded : Encoded M.freqHz publication delta payload)
    (hconnecting : answers.connecting.Short M.hello) (hwriting : answers.writing.Short payload) :
    Inv M (y.publishDelta M publication payload answers) := by
  have hkind : FrameKind.profileDelta ≠ .hello := nofun
  have hleads := SessionPublisher.send_leads h.publisher M.helloLength hkind hencoded.length
    hconnecting hwriting
  rcases SessionPublisher.send_sentFrames payload answers.writing h.publisher M.helloLength hkind
    hconnecting with ⟨htrue, hperm⟩ | ⟨hfalse, hsame⟩
  · have haccepted : y.publishDelta M publication payload answers = { y with
        publisher := (y.publisher.send M.hello .profileDelta payload answers.connecting
          answers.writing).2
        progress := y.progress.publish ⟨publication.snapshot, publication.order, true, true⟩
        deltas := y.deltas ++ [⟨.profileDelta, (y.publisher.send M.hello .profileDelta payload
          answers.connecting answers.writing).2.sequence, payload⟩] } := by
      simp only [System.publishDelta, htrue, unwrapOrFalse, if_true]
    rw [haccepted]
    refine ⟨hleads.sound, fun c => (h.loops c).grows (hleads.grows c), ?_, fun f hf hkind => ?_,
      h.telescopes.publish hregular.counted horder hgrows, ?_⟩
    · have hdeltas := h.deltas.append_right [⟨.profileDelta, (y.publisher.send M.hello
        .profileDelta payload answers.connecting answers.writing).2.sequence, payload⟩]
      refine (hperm.filter _).trans ?_
      rw [List.filter_append]
      simpa using hdeltas
    · rcases List.mem_append.mp (hperm.mem_iff.mp hf) with hf | hf
      · have hfinished := (h.final f hf hkind).1
        rw [hopen] at hfinished
        cases hfinished
      · cases List.mem_singleton.mp hf
        cases hkind
    · dsimp only
      rw [publish_accepted hdelta]
      exact List.rel_append h.carried (.cons ⟨RawProfileCursor.delta_regular hregular horder hdelta,
        publication, hencoded⟩ .nil)
  · have hrejected : y.publishDelta M publication payload answers = { y with
        publisher := (y.publisher.send M.hello .profileDelta payload answers.connecting
          answers.writing).2 } := by
      have hunwrap : unwrapOrFalse (y.publisher.send M.hello .profileDelta payload
          answers.connecting answers.writing).1 = false := by
        cases hresult : (y.publisher.send M.hello .profileDelta payload answers.connecting
            answers.writing).1 with
        | error e => rfl
        | ok b => exact hfalse b hresult
      simp only [System.publishDelta, hunwrap, publish_rejected]
      rfl
    rw [hrejected]
    exact h.unsent hopen hleads hsame y.finished

theorem publishUpdate {publication : Publication} {payload : List UInt8}
    {ensuring : ConnectOutcome} {answers : Answers} (h : Inv M y) (hopen : y.finished = false)
    (hregular : publication.snapshot.Regular)
    (horder : Enumerates publication.order publication.snapshot.stackSeries)
    (hgrows : publication.snapshot.Grows fun key =>
      (y.progress.published.map fun p => p.observations key).getD [])
    (hencoded : ∀ delta,
      (y.progress.cursor.delta publication.snapshot publication.order).1 = some delta →
        Encoded M.freqHz publication delta payload)
    (hensuring : ensuring.Short M.hello) (hconnecting : answers.connecting.Short M.hello)
    (hwriting : answers.writing.Short payload) :
    Inv M (y.publishUpdate M publication payload ensuring answers) := by
  have hensured := SessionPublisher.ensureConnected_leads h.publisher M.helloLength hensuring
  have hsame := SessionPublisher.ensureConnected_sentFrames ensuring h.publisher
  have hwaiting : Inv M { y with
      publisher := (y.publisher.ensureConnected M.hello ensuring).2 } :=
    h.unsent hopen hensured hsame y.finished
  unfold System.publishUpdate
  dsimp only
  split_ifs with hsend
  · obtain ⟨delta, hdelta⟩ := Option.isSome_iff_exists.mp hsend.2
    exact hwaiting.publishDelta hopen hregular horder hgrows hdelta (hencoded delta hdelta)
      hconnecting hwriting
  · exact hwaiting

theorem setLoop {c : ℕ} {loop : ReadLoop} (h : Inv M y)
    (hloop : loop.Follows (y.publisher.sockets c) (y.handledOn c)) : Inv M (y.setLoop c loop) where
  publisher := h.publisher
  loops c' := by
    change ReadLoop.Follows (Function.update y.loops c loop c') _ _
    by_cases he : c' = c
    · subst he
      rw [Function.update_self]
      exact hloop
    · rw [Function.update_of_ne he]
      exact h.loops c'
  deltas := h.deltas
  final := h.final
  telescopes := h.telescopes
  carried := h.carried

theorem handle {c : ℕ} {frame : SessionFrame} {queue : List SessionFrame} (h : Inv M y)
    (hqueue : (y.loops c).queue = frame :: queue) (app : State) :
    Inv M (y.handle M c frame queue app) where
  publisher := h.publisher
  loops c' := by
    change ReadLoop.Follows (Function.update y.loops c _ c') (y.publisher.sockets c')
      (((y.handled ++ [(c, frame)]).filter fun x => x.1 = c').map Prod.snd)
    rw [List.filter_append, List.map_append]
    by_cases he : c' = c
    · subst he
      rw [Function.update_self, List.filter_singleton]
      simpa [System.handledOn] using (h.loops c').handle hqueue
    · rw [Function.update_of_ne he, List.filter_singleton]
      simpa [System.handledOn, Ne.symm he] using h.loops c'
  deltas := h.deltas
  final := h.final
  telescopes := h.telescopes
  carried := h.carried

theorem step {a : Action} {z : System} (h : Inv M y) (hstep : Step M y a z) : Inv M z := by
  cases hstep with
  | publishUpdate hopen hregular horder hgrows hencoded hensuring hconnecting hwriting =>
    exact h.publishUpdate hopen hregular horder hgrows hencoded hensuring hconnecting hwriting
  | send hopen hhello hdelta hpayload hconnecting hwriting =>
    exact h.send hopen hhello hdelta hpayload hconnecting hwriting
  | @read connection count hopen _ _ hcount =>
    exact h.setLoop ((h.loops connection).read hopen hcount (h.publisher.length connection)
      (h.publisher.cut connection))
  | @close connection => exact h.setLoop (h.loops connection).close
  | handle hqueue _ => exact h.handle hqueue _

theorem run {actions : List Action} {z : System} (h : Inv M y) (hrun : Run M y actions z) :
    Inv M z := by
  induction hrun with
  | nil => exact h
  | snoc _ hstep ih => exact ih.step hstep

theorem next {c : ℕ} {frame : SessionFrame} {queue : List SessionFrame} (h : Inv M y)
    (hqueue : (y.loops c).queue = frame :: queue) :
    ∃ earlier f later, (y.publisher.sockets c).frames = earlier ++ f :: later ∧
      y.handledOn c = earlier.map WrittenFrame.received ∧ f.received = frame := by
  obtain ⟨done, later, hframes, hreturned, -⟩ := (h.loops c).returned
  rw [hqueue] at hreturned
  obtain ⟨earlier, rest, rfl, hearlier, hrest⟩ := List.map_eq_append_iff.mp hreturned.symm
  obtain ⟨f, rest, rfl, hf, -⟩ := List.map_eq_cons_iff.mp hrest
  refine ⟨earlier, f, rest ++ later, ?_, hearlier.symm, hf⟩
  rw [hframes, List.append_assoc]
  rfl

theorem next_hello {c : ℕ} {frame : SessionFrame} {queue : List SessionFrame} (h : Inv M y)
    (hqueue : (y.loops c).queue = frame :: queue) :
    (y.handledOn c = [] ∧ frame.header.kind = .hello ∧ frame.payload = M.hello) ∨
      (y.handledOn c ≠ [] ∧ frame.header.kind ≠ .hello) := by
  obtain ⟨earlier, f, later, hframes, hhandled, rfl⟩ := h.next hqueue
  cases earlier with
  | nil =>
    obtain ⟨hkind, hpayload⟩ := h.publisher.first c f (by rw [hframes]; rfl)
    refine .inl ⟨hhandled, ?_, hpayload⟩
    change SessionFrameKind.ofFrameKind f.kind = _
    rw [hkind]
    rfl
  | cons g earlier =>
    refine .inr ⟨by rw [hhandled]; exact List.cons_ne_nil _ _, fun hkind => ?_⟩
    refine h.publisher.later c f ?_ (SessionFrameKind.ofFrameKind_injective hkind)
    rw [hframes]
    exact List.mem_append_right _ List.mem_cons_self

theorem mem_sentFrames {c : ℕ} {frame : SessionFrame} {queue : List SessionFrame} (h : Inv M y)
    (hqueue : (y.loops c).queue = frame :: queue) (hkind : frame.header.kind ≠ .hello) :
    ∃ f ∈ y.publisher.sentFrames, f.received = frame := by
  obtain ⟨earlier, f, later, hframes, -, rfl⟩ := h.next hqueue
  refine ⟨f, SessionPublisher.mem_sentFrames (c := c) h.publisher ?_ fun hhello => hkind ?_, rfl⟩
  · rw [hframes]
    exact List.mem_append_right _ List.mem_cons_self
  · change SessionFrameKind.ofFrameKind f.kind = _
    rw [hhello]
    rfl

end Inv

theorem Step.handled_initial {M : Setting} {y z : System} {a : Action} (h : Step M y a z) :
    y.handled <+: z.handled := by
  cases h with
  | publishUpdate =>
    unfold System.publishUpdate
    dsimp only
    split_ifs <;> exact List.prefix_refl _
  | send => exact List.prefix_refl _
  | read => exact List.prefix_refl _
  | close => exact List.prefix_refl _
  | handle => exact List.prefix_append ..

theorem Run.handled_initial {M : Setting} {y z : System} {actions : List Action}
    (h : Run M y actions z) : y.handled <+: z.handled := by
  induction h with
  | nil => exact List.prefix_refl _
  | snoc _ hstep ih => exact ih.trans hstep.handled_initial

end PProfessor.Network
