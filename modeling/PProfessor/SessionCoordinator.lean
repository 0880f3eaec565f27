import PProfessor.KitFrameWriter
import PProfessor.LiveAccumulator

set_option autoImplicit false

/-!
# The session coordinator

`SessionCoordinator` of the application: the sessions it stores, the files below its storage
root, and the runtimes and connections it keeps in memory. Each handler runs on the main actor
from beginning to end, and a trap ends the process. File operations succeed.
-/
namespace PProfessor.Coordinator
open CheckedArith Kit

abbrev UUID := BitVec 128

structure SessionHelloPayload where
  sessionId : String
  mode : String
  pid : UInt32
  processName : String
  frequencyHz : UInt32

/-- What the coordinator takes from Foundation and from Swift's strings. -/
structure Foundation where
  /-- `JSONDecoder`, from snake case. -/
  decodeHello : List UInt8 → Option SessionHelloPayload
  /-- `UUID(uuidString:)`. -/
  uuid : String → Option UUID
  /-- `String(data:encoding: .utf8)`. -/
  text : List UInt8 → Option String
  /-- The canonical form that decides whether two strings are equal. -/
  canon : String → String

inductive ProfileSessionSource where
  | appAttach
  | cliAttach
  | cliRun
  | imported
  | runtime
  deriving DecidableEq, Repr

inductive ProfileSessionStatus where
  | connecting
  | live
  | finalizing
  | completed
  | failed
  | interrupted
  deriving DecidableEq, Repr

/-- A file of a session's directory, relative to the storage root. -/
structure RelativePath where
  directory : UUID
  name : String
  deriving DecidableEq, Repr

def artifactPath (id : UUID) : RelativePath := ⟨id, "profile.pb.gz"⟩

def journalPath (id : UUID) : RelativePath := ⟨id, "live.journal"⟩

/-- A stored session. Its `id` is its key in the store. -/
structure ProfileSession where
  displayName : String
  source : ProfileSessionSource
  status : ProfileSessionStatus
  pid : Option Int64
  processName : Option String
  architecture : Option String
  frequencyHz : Int64
  durationNanos : Int64
  sampleCount : Int64
  artifactRelativePath : Option RelativePath
  journalRelativePath : Option RelativePath
  errorSummary : Option String
  deriving DecidableEq, Repr

def ProfileSession.new (displayName : String) (source : ProfileSessionSource)
    (status : ProfileSessionStatus) (pid : Option Int64) (processName architecture : Option String)
    (frequencyHz : Int64) : ProfileSession :=
  { displayName, source, status, pid, processName, architecture, frequencyHz
    durationNanos := 0
    sampleCount := 0
    artifactRelativePath := none
    journalRelativePath := none
    errorSummary := none }

structure AttachProcessInfo where
  pid : UInt32
  name : String
  architecture : String

structure RuntimeSession where
  accumulator : LiveProfileAccumulator
  lastSequence : UInt64

inductive Presentation where
  | decodedProfile (profile : DecodedProfile)
  | file (path : RelativePath)

structure State where
  sessions : UUID → Option ProfileSession
  files : UUID → String → Option (List UInt8)
  connectionSessions : UUID → Option UUID
  runtimes : UUID → Option RuntimeSession
  selectedSessionID : Option UUID
  observed : Bool
  lastError : Option String
  shown : Option Presentation

namespace State

def initial : State where
  sessions _ := none
  files _ _ := none
  connectionSessions _ := none
  runtimes _ := none
  selectedSessionID := none
  observed := false
  lastError := none
  shown := none

def connect (s : State) (connectionID id : UUID) : State :=
  { s with
    connectionSessions := Function.update s.connectionSessions connectionID (some id) }

def save (s : State) (id : UUID) (session : ProfileSession) : State :=
  { s with sessions := Function.update s.sessions id (some session) }

def setRuntime (s : State) (id : UUID) (runtime : RuntimeSession) : State :=
  { s with runtimes := Function.update s.runtimes id (some runtime) }

def setFile (s : State) (path : RelativePath) (contents : Option (List UInt8)) : State :=
  { s with
    files := Function.update s.files path.directory
      (Function.update (s.files path.directory) path.name contents) }

def present (s : State) (id : UUID) (presentation : Presentation) : State :=
  if s.selectedSessionID = some id ∧ s.observed = true then { s with shown := some presentation }
  else s

def accepted (s : State) (connectionID : UUID) (frame : SessionFrame) :
    Option (UUID × RuntimeSession × ProfileSession) :=
  match s.connectionSessions connectionID with
  | none => none
  | some sessionID =>
    match s.runtimes sessionID, s.sessions sessionID with
    | some runtime, some session =>
      if runtime.lastSequence < frame.header.sequence then some (sessionID, runtime, session)
      else none
    | _, _ => none

end State

/-- `samples.reduce(0)`; `+` traps on overflow. -/
def sampleCount (profile : DecodedProfile) : Except Trap Int64 :=
  profile.samples.foldlM
    (fun count sample =>
      match addI64 count (sample.values.head?.getD 0) with
      | some sum => .ok sum
      | none => .error .intOverflow) 0

namespace State

def update (s : State) (id : UUID) (session : ProfileSession) (profile : DecodedProfile)
    (status : ProfileSessionStatus) : Except Trap State := do
  let count ← sampleCount profile
  .ok ((s.save id { session with
    status
    durationNanos := profile.durationNanos
    sampleCount := count }).present id (.decodedProfile profile))

def complete (s : State) (id : UUID) (session : ProfileSession) (gzipProfile : List UInt8) :
    State :=
  (((s.setFile (artifactPath id) (some gzipProfile)).setFile (journalPath id) none).save id
    { session with
      artifactRelativePath := some (artifactPath id)
      journalRelativePath := none
      status := .completed }).present id (.file (artifactPath id))

def appendJournal (s : State) (sessionID : UUID) (frame : SessionFrame) : State :=
  s.setFile (journalPath sessionID)
    (some ((s.files sessionID "live.journal").getD [] ++ frame.bytes))

end State

section
variable (F : Foundation)

def RuntimeSession.new : RuntimeSession := ⟨LiveProfileAccumulator.new F.canon, 0⟩

/-- A checkpoint or a delta taken into the accumulator; other frames leave it as it is. -/
def take (accumulator : LiveProfileAccumulator) (frame : SessionFrame) :
    Except Trap LiveProfileAccumulator :=
  match frame.header.kind with
  | .profileCheckpoint => do
    let profile ← DecodedProfile.decode F.text frame.payload
    LiveProfileAccumulator.replace F.canon profile
  | .profileDelta => do
    let profile ← DecodedProfile.decode F.text frame.payload
    accumulator.merge F.canon profile
  | _ => .ok accumulator

def RuntimeSession.replay (runtime : RuntimeSession) (frame : SessionFrame) :
    Except Trap RuntimeSession :=
  match frame.header.kind with
  | .profileCheckpoint | .profileDelta => do
    let accumulator ← take F runtime.accumulator frame
    .ok ⟨accumulator, max runtime.lastSequence frame.header.sequence⟩
  | _ => .ok runtime

/-- The session `receiveHello` inserts, or the one it finds, live again. -/
def SessionHelloPayload.session (hello : SessionHelloPayload) (id : UUID) :
    Option ProfileSession → ProfileSession
  | none =>
    let source := if F.canon hello.mode = F.canon "runtime" then .runtime
      else if F.canon hello.mode = F.canon "run" then .cliRun else .cliAttach
    let session := ProfileSession.new hello.processName source .live
      (some (.ofNat hello.pid.toNat)) (some hello.processName) none
      (.ofNat hello.frequencyHz.toNat)
    { session with journalRelativePath := some (journalPath id) }
  | some session => { session with status := .live }

namespace State

def replayJournal (s : State) (url : RelativePath) (sessionID : UUID) :
    Except Trap (Option DecodedProfile × State) :=
  match s.files url.directory url.name with
  | none => .ok (none, s)
  | some data =>
    match (SessionFrameParser.init.append data).1 with
    | .error _ => .ok (none, s)
    | .ok frames => do
      let runtime ← frames.foldlM (RuntimeSession.replay F) (.new F)
      .ok (some runtime.accumulator.profile, s.setRuntime sessionID runtime)

def setSelection (s : State) (id : UUID) (session : ProfileSession) : State :=
  { s with
    selectedSessionID := some id
    observed := true
    lastError :=
      if session.status = ProfileSessionStatus.failed then
        match session.errorSummary with
        | some errorSummary => if errorSummary.isEmpty then s.lastError else some errorSummary
        | none => s.lastError
      else s.lastError }

def load (s : State) (id : UUID) (session : ProfileSession) : Except Trap State :=
  match s.runtimes id, session.artifactRelativePath, session.journalRelativePath with
  | some runtime, _, _ =>
    .ok { s with shown := some (.decodedProfile runtime.accumulator.profile) }
  | none, some relative, _ => .ok { s with shown := some (.file relative) }
  | none, none, some relative => do
    let (profile, s) ← s.replayJournal F relative id
    match profile with
    | some profile => .ok { s with shown := some (.decodedProfile profile) }
    | none => .ok s
  | none, none, none => .ok s

def select (s : State) (id : UUID) (session : ProfileSession) : Except Trap State :=
  (s.setSelection id session).load F id session

/-- `importProfile`, with the identifier drawn for it. -/
def importProfile (s : State) (id : UUID) (displayName : String) (contents : List UInt8) : State :=
  let session := ProfileSession.new displayName .imported .completed none none none 0
  let s := (s.setFile (artifactPath id) (some contents)).save id
    { session with artifactRelativePath := some (artifactPath id) }
  { s with selectedSessionID := some id, shown := some (.file (artifactPath id)) }

def delete (s : State) (id : UUID) : State :=
  { s with
    sessions := Function.update s.sessions id none
    files := Function.update s.files id fun _ => none
    runtimes := Function.update s.runtimes id none
    connectionSessions := fun connectionID =>
      (s.connectionSessions connectionID).filter (· ≠ id)
    selectedSessionID := s.selectedSessionID.filter (· ≠ id) }

/-- `launchAttach`, with the identifier drawn for it and the error `run` throws, if it does. -/
def launchAttach (s : State) (id : UUID) (process : AttachProcessInfo) (frequency : Int64)
    (failure : Option String) : State :=
  let session := ProfileSession.new process.name .appAttach .connecting
    (some (.ofNat process.pid.toNat)) (some process.name) (some process.architecture) frequency
  let s := s.save id session
  match failure with
  | none => s
  | some description =>
    s.save id { session with status := .failed, errorSummary := some description }

/-- `runtimes[id]` as `receiveHello` leaves it: the one there is, the replayed journal, or a new
one. -/
def ensureRuntime (s : State) (id : UUID) (existingSession : Option ProfileSession) :
    Except Trap State :=
  let replayed := match s.runtimes id, existingSession.bind ProfileSession.journalRelativePath with
    | none, some relative => (s.replayJournal F relative id).map Prod.snd
    | _, _ => .ok s
  replayed.map fun s => s.setRuntime id ((s.runtimes id).getD (.new F))

def receiveHello (s : State) (connectionID : UUID) (payload : List UInt8) : Except Trap State :=
  match F.decodeHello payload with
  | none => .ok s
  | some hello =>
    match F.uuid hello.sessionId with
    | none => .ok s
    | some id =>
      let s := s.connect connectionID id
      let existingSession := s.sessions id
      (s.ensureRuntime F id existingSession).map fun s =>
        s.save id (hello.session F id existingSession)

/-- The cases of `receive` that leave the accumulator as it is. -/
def receiveControl (s : State) (sessionID : UUID) (session : ProfileSession)
    (frame : SessionFrame) : State :=
  match frame.header.kind with
  | .finalizing => s.save sessionID { session with status := .finalizing }
  | .finalProfile => s.complete sessionID session frame.payload
  | .failed =>
    let errorSummary := F.text frame.payload
    { s.save sessionID { session with status := .failed, errorSummary } with
      lastError := some (errorSummary.getD "Profiling failed without an error message.") }
  | _ => s

def receive (s : State) (connectionID : UUID) (frame : SessionFrame) : Except Trap State :=
  if frame.header.kind = .hello then s.receiveHello F connectionID frame.payload
  else
    match s.accepted connectionID frame with
    | none => .ok s
    | some (sessionID, runtime, session) =>
      match frame.header.kind with
      | .profileCheckpoint | .profileDelta => do
        let accumulator ← take F runtime.accumulator frame
        let s := s.setRuntime sessionID ⟨accumulator, frame.header.sequence⟩
        let s ← s.update sessionID session accumulator.profile .live
        .ok (s.appendJournal sessionID frame)
      | _ =>
        let s := s.setRuntime sessionID { runtime with lastSequence := frame.header.sequence }
        .ok (s.receiveControl F sessionID session frame)

end State

end

def isWhitespaceOrNewline (c : Char) : Bool :=
  (9 ≤ c.toNat && c.toNat ≤ 13) || (0x2000 ≤ c.toNat && c.toNat ≤ 0x200A) ||
    c.toNat ∈ [0x20, 0x85, 0xA0, 0x1680, 0x2028, 0x2029, 0x202F, 0x205F, 0x3000]

def trimmingWhitespace (s : String) : String :=
  .ofList (((s.toList.dropWhile isWhitespaceOrNewline).reverse.dropWhile
    isWhitespaceOrNewline).reverse)

namespace State

def captureTerminated (s : State) (id : UUID) (status : Int32) (message : Option String) : State :=
  match s.sessions id with
  | none => s
  | some session =>
    if session.status ∈ [.connecting, .live, .finalizing] ∧ status ≠ 0 then
      let trimmedMessage := (message.map trimmingWhitespace).getD ""
      let failureMessage := if trimmedMessage.isEmpty then
          "Profiler exited with status " ++ toString status.toInt ++ " without an error message."
        else trimmedMessage
      { s.save id { session with status := .failed, errorSummary := some failureMessage } with
        lastError := some failureMessage }
    else s

/-- `markAbandonedSessionsInterrupted`, on one session. -/
def interrupted (session : ProfileSession) : ProfileSession :=
  if session.status ∈ [.live, .finalizing, .connecting] then { session with status := .interrupted }
  else session

/-- A new process's coordinator over the same store, after `start`; `failure` is what `start`
catches. -/
def restart (s : State) (failure : Option String) : State :=
  { initial with
    sessions := match failure with
      | none => fun id => (s.sessions id).map interrupted
      | some _ => s.sessions
    files := s.files
    lastError := failure }

end State

inductive Event where
  | receive (connectionID : UUID) (frame : SessionFrame)
  | select (id : UUID)
  | importProfile (id : UUID) (displayName : String) (contents : List UInt8)
  | delete (id : UUID)
  | launchAttach (id : UUID) (process : AttachProcessInfo) (frequency : Int64)
      (failure : Option String)
  | captureTerminated (id : UUID) (status : Int32) (message : Option String)
  | restart (failure : Option String)

/-- The parser hands over well-formed frames, `UUID()` draws an identifier that is not in use,
and only a stored session is there to be selected or deleted. -/
def Event.Possible (s : State) : Event → Prop
  | receive _ frame => frame.WellFormed
  | select id => s.sessions id ≠ none
  | importProfile id _ _ => s.sessions id = none
  | delete id => s.sessions id ≠ none
  | launchAttach id _ _ _ => s.sessions id = none
  | captureTerminated _ _ _ => True
  | restart _ => True

def State.step (F : Foundation) (s : State) : Event → Except Trap State
  | .receive connectionID frame => s.receive F connectionID frame
  | .select id =>
    match s.sessions id with
    | some session => s.select F id session
    | none => .ok s
  | .importProfile id displayName contents => .ok (s.importProfile id displayName contents)
  | .delete id => .ok (s.delete id)
  | .launchAttach id process frequency failure =>
    .ok (s.launchAttach id process frequency failure)
  | .captureTerminated id status message => .ok (s.captureTerminated id status message)
  | .restart failure => .ok (s.restart failure)

end PProfessor.Coordinator
