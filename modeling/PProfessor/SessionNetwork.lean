import PProfessor.Publishing
import PProfessor.SessionChanges
import PProfessor.SessionPublisher

set_option autoImplicit false

/-!
# A publisher, its connections and the application

One publisher process, the TCP connections it opens one after the other, a read loop for each in
the application, and the main actor, which handles the frames of one connection in order and
those of different connections in any order.
-/
namespace PProfessor.Network
open Capture Coordinator Framing KeyedSum Kit LiveView Publishing SessionStream

/-- What a run does not change: the payload of the Hello frames, the identifier the server draws
for each connection, and the frequency of the capture. -/
structure Setting where
  foundation : Foundation
  hello : List UInt8
  helloLength : hello.length < 2 ^ 64
  connectionID : ℕ → UUID
  freqHz : UInt32

/-- `readLoop` of one connection, and the frames it has handed over but the main actor has not
taken up. -/
structure ReadLoop where
  consumed : ℕ
  parser : SessionFrameParser
  closed : Bool
  queue : List SessionFrame

def ReadLoop.new : ReadLoop := ⟨0, .init, false, []⟩

/-- One `read` of `count` bytes: a throw ends the loop and loses what the call had parsed. -/
def ReadLoop.read (loop : ReadLoop) (bytes : List UInt8) (count : ℕ) : ReadLoop :=
  match loop.parser.append ((bytes.drop loop.consumed).take count) with
  | (.ok frames, parser) =>
    { loop with consumed := loop.consumed + count, parser, queue := loop.queue ++ frames }
  | (.error _, parser) =>
    { loop with consumed := loop.consumed + count, parser, closed := true }

structure System where
  publisher : SessionPublisher
  progress : Progress
  /-- The deltas whose `send` returned `Ok(true)`. -/
  deltas : List WrittenFrame
  finished : Bool
  loops : ℕ → ReadLoop
  app : State
  /-- The data frames the application accepted. -/
  applied : UUID → List SessionFrame
  handled : List (ℕ × SessionFrame)

namespace System

def start (app : State) : System where
  publisher := .new
  progress := .start
  deltas := []
  finished := false
  loops _ := .new
  app
  applied _ := []
  handled := []

def setLoop (y : System) (connection : ℕ) (loop : ReadLoop) : System :=
  { y with loops := Function.update y.loops connection loop }

end System

def unwrapOrFalse : Except ErrorKind Bool → Bool
  | .ok b => b
  | .error _ => false

/-- The answers of the operating system to one call that may connect and then write. -/
structure Answers where
  connecting : ConnectOutcome
  writing : WriteOutcome

inductive Action where
  | publishUpdate (publication : Publication) (payload : List UInt8) (ensuring : ConnectOutcome)
      (answers : Answers)
  | send (kind : FrameKind) (payload : List UInt8) (answers : Answers)
  | read (connection count : ℕ)
  | close (connection : ℕ)
  | handle (connection : ℕ)

/-- `live.to_pprof()` of a delta, whose tables fit into memory. -/
structure Encoded (freqHz : UInt32) (publication : Publication) (delta : RawProfile)
    (payload : List UInt8) : Prop where
  order : Enumerates publication.deltaOrder delta.stackSeries
  fits : VecsFit (published freqHz (publication, delta))
  payload : LiveView.payload freqHz (publication, delta) = .ok payload

theorem Encoded.eq {freqHz : UInt32} {publication : Publication} {delta : RawProfile}
    {payload : List UInt8} (h : Encoded freqHz publication delta payload) :
    payload = (published freqHz (publication, delta)).encode := by
  have hpayload := h.payload
  unfold LiveView.payload buildProto at hpayload
  split_ifs at hpayload
  exact (Except.ok.inj hpayload).symm

theorem Encoded.length {freqHz : UInt32} {publication : Publication} {delta : RawProfile}
    {payload : List UInt8} (h : Encoded freqHz publication delta payload) :
    payload.length < 2 ^ 64 := by
  rw [h.eq]
  exact h.fits.encoding.trans (by norm_num)

section
variable (M : Setting)

namespace System

/-- The end of `publish_update`, where there is a connection and a delta. -/
def publishDelta (y : System) (publication : Publication) (payload : List UInt8)
    (answers : Answers) : System :=
  let sent := y.publisher.send M.hello .profileDelta payload answers.connecting answers.writing
  let accepted := unwrapOrFalse sent.1
  { y with
    publisher := sent.2
    progress := y.progress.publish ⟨publication.snapshot, publication.order, true, accepted⟩
    deltas := if accepted then y.deltas ++ [⟨.profileDelta, sent.2.sequence, payload⟩]
      else y.deltas }

/-- `publish_update`; `payload` is what the delta is encoded to. -/
def publishUpdate (y : System) (publication : Publication) (payload : List UInt8)
    (ensuring : ConnectOutcome) (answers : Answers) : System :=
  let ensured := y.publisher.ensureConnected M.hello ensuring
  let y := { y with publisher := ensured.2 }
  if unwrapOrFalse ensured.1 ∧
      (y.progress.cursor.delta publication.snapshot publication.order).1.isSome then
    y.publishDelta M publication payload answers
  else y

def send (y : System) (kind : FrameKind) (payload : List UInt8) (answers : Answers) : System :=
  let sent := y.publisher.send M.hello kind payload answers.connecting answers.writing
  { y with publisher := sent.2, finished := kind = .finalProfile }

def handle (y : System) (connection : ℕ) (frame : SessionFrame) (queue : List SessionFrame)
    (app : State) : System :=
  { y.setLoop connection { y.loops connection with queue } with
    app
    applied := y.app.history y.applied (.receive (M.connectionID connection) frame)
    handled := y.handled ++ [(connection, frame)] }

@[simp] theorem handle_handled (y : System) (connection : ℕ) (frame : SessionFrame)
    (queue : List SessionFrame) (app : State) :
    (y.handle M connection frame queue app).handled = y.handled ++ [(connection, frame)] := rfl

theorem handle_loops (y : System) (connection c : ℕ) (frame : SessionFrame)
    (queue : List SessionFrame) (app : State) : (y.handle M connection frame queue app).loops c =
      if c = connection then { y.loops connection with queue } else y.loops c :=
  Function.update_apply ..

end System

inductive Step : System → Action → System → Prop where
  | publishUpdate {y : System} {publication : Publication} {payload : List UInt8}
      {ensuring : ConnectOutcome} {answers : Answers} :
      y.finished = false → publication.snapshot.Regular →
      Enumerates publication.order publication.snapshot.stackSeries →
      publication.snapshot.Grows (fun key =>
        (y.progress.published.map fun p => p.observations key).getD []) →
      (∀ delta, (y.progress.cursor.delta publication.snapshot publication.order).1 = some delta →
        Encoded M.freqHz publication delta payload) →
      ensuring.Short M.hello → answers.connecting.Short M.hello →
      answers.writing.Short payload →
      Step y (.publishUpdate publication payload ensuring answers)
        (y.publishUpdate M publication payload ensuring answers)
  | send {y : System} {kind : FrameKind} {payload : List UInt8} {answers : Answers} :
      y.finished = false → kind ≠ .hello → kind ≠ .profileDelta → payload.length < 2 ^ 64 →
      answers.connecting.Short M.hello →
      answers.writing.Short payload →
      Step y (.send kind payload answers) (y.send M kind payload answers)
  | read {y : System} {connection count : ℕ} : (y.loops connection).closed = false →
      0 < count → count ≤ 64 * 1024 →
      (y.loops connection).consumed + count ≤ (y.publisher.sockets connection).bytes.length →
      Step y (.read connection count) (y.setLoop connection
        ((y.loops connection).read (y.publisher.sockets connection).bytes count))
  | close {y : System} {connection : ℕ} :
      Step y (.close connection)
        (y.setLoop connection { y.loops connection with closed := true })
  | handle {y : System} {connection : ℕ} {frame : SessionFrame} {queue : List SessionFrame}
      {app : State} : (y.loops connection).queue = frame :: queue →
      y.app.receive M.foundation (M.connectionID connection) frame = .ok app →
      Step y (.handle connection) (y.handle M connection frame queue app)

inductive Run (y : System) : List Action → System → Prop where
  | nil : Run y [] y
  | snoc {actions : List Action} {a : Action} {z z' : System} :
      Run y actions z → Step M z a z' → Run y (actions ++ [a]) z'

end

end PProfessor.Network
