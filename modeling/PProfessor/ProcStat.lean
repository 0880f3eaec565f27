import PProfessor.CheckedArith
import PProfessor.HeapHistory
import PProfessor.TextOffsets

set_option autoImplicit false

/-!
# Process identities on Linux

`parse_stat` of `src/processes/linux.rs` and the check that attaching makes of the start time.
The name stands unescaped in a stat line; `sysconf(_SC_CLK_TCK)` is a parameter.
-/
namespace PProfessor.Processes
open CheckedArith Text
open Heap (isWhitespace splitWhitespace)

/-- The name, the parent's id and the start time in microseconds. -/
def parseStat (ticksPerSecond : Int64) (stat : List Char) : Option (String × UInt32 × UInt64) := do
  let nameStart ← find '(' stat
  let nameEnd ← rfind ')' stat
  let name ← get (nameStart + 1) nameEnd stat
  let fields := splitWhitespace (← getFrom (nameEnd + 2) stat)
  let parentPid ← parseU32 (← fields[1]?)
  let startTicks ← parseU64 (← fields[19]?)
  if ticksPerSecond ≤ 0 then none
  else
    let startTimeMicros := saturatingMulU64 startTicks 1000000 / ticksPerSecond.toUInt64
    some (String.ofList name, parentPid, startTimeMicros)

def numeral : ℤ → List Char
  | .ofNat n => Nat.toDigits 10 n
  | .negSucc n => '-' :: Nat.toDigits 10 (n + 1)

theorem mem_numeral {i : ℤ} {c : Char} (h : c ∈ numeral i) : c.isDigit ∨ c = '-' := by
  have hdigits {n : ℕ} (hc : c ∈ Nat.toDigits 10 n) : c.isDigit :=
    Nat.isDigit_of_mem_toDigits (by decide) (by decide) hc
  cases i with
  | ofNat n => exact .inl (hdigits h)
  | negSucc n =>
    rcases List.mem_cons.mp h with rfl | h
    · exact .inr rfl
    · exact .inl (hdigits h)

theorem isWhitespace_of_isDigit {c : Char} (h : c.isDigit) : isWhitespace c = false := by
  rw [Char.isDigit, Bool.and_eq_true, decide_eq_true_eq, decide_eq_true_eq] at h
  have hlow : 48 ≤ c.toNat := UInt32.le_iff_toNat_le.mp h.1
  have hhigh : c.toNat ≤ 57 := UInt32.le_iff_toNat_le.mp h.2
  unfold isWhitespace
  simp only [Bool.or_eq_false_iff, Bool.and_eq_false_iff, decide_eq_false_iff_not]
  omega

theorem numeral_word (i : ℤ) : Word isWhitespace (numeral i) := by
  constructor
  · cases i with
    | ofNat n => exact Nat.toDigits_ne_nil
    | negSucc n => exact List.cons_ne_nil _ _
  · intro c hc
    rcases mem_numeral hc with h | rfl
    · exact isWhitespace_of_isDigit h
    · rfl

theorem not_mem_numeral {c : Char} (hc : ¬c.isDigit ∧ c ≠ '-') (i : ℤ) : c ∉ numeral i :=
  fun h => (mem_numeral h).elim hc.1 hc.2

/-- What the kernel writes: `pid (name) state ppid … starttime …`, with 17 numbers between the
parent's id and the start time. Nothing is asked of the name. -/
structure StatLine where
  pid : UInt32
  name : List Char
  state : List Char
  parentPid : UInt32
  middle : List ℤ
  startTicks : UInt64
  rest : List ℤ
  ending : List Char
  state_word : Word isWhitespace state
  state_open : ')' ∉ state
  middle_length : middle.length = 17
  ending_blank : ∀ c ∈ ending, isWhitespace c = true

namespace StatLine

def fields (line : StatLine) : List (List Char) :=
  numeral line.parentPid.toNat ::
    (line.middle.map numeral ++ numeral line.startTicks.toNat :: line.rest.map numeral)

def trailing (line : StatLine) : List Char :=
  line.state ++ (line.fields.flatMap fun field => ' ' :: field) ++ line.ending

def text (line : StatLine) : List Char :=
  numeral line.pid.toNat ++ ' ' :: '(' :: (line.name ++ ')' :: ' ' :: line.trailing)

theorem mem_fields {line : StatLine} {field : List Char} (h : field ∈ line.fields) :
    ∃ i, field = numeral i := by
  rcases List.mem_cons.mp h with rfl | h
  · exact ⟨_, rfl⟩
  · rcases List.mem_append.mp h with h | h
    · obtain ⟨i, -, rfl⟩ := List.mem_map.mp h
      exact ⟨i, rfl⟩
    · rcases List.mem_cons.mp h with rfl | h
      · exact ⟨_, rfl⟩
      · obtain ⟨i, -, rfl⟩ := List.mem_map.mp h
        exact ⟨i, rfl⟩

theorem trailing_open (line : StatLine) : ')' ∉ ' ' :: line.trailing := by
  have hfields : ')' ∉ line.fields.flatMap fun field => ' ' :: field := by
    intro h
    obtain ⟨field, hfield, h⟩ := List.mem_flatMap.mp h
    obtain ⟨i, rfl⟩ := mem_fields hfield
    rcases List.mem_cons.mp h with h | h
    · exact absurd h (by decide)
    · exact not_mem_numeral (by decide) i h
  have hending : ')' ∉ line.ending := fun h => absurd (line.ending_blank _ h) (by decide)
  simp only [trailing, List.mem_cons, List.mem_append, not_or]
  exact ⟨by decide, ⟨line.state_open, hfields⟩, hending⟩

theorem splitWhitespace_trailing (line : StatLine) :
    splitWhitespace line.trailing = line.state :: line.fields := by
  change words isWhitespace line.trailing = _
  rw [trailing, words_append_blanks _ line.ending_blank]
  refine words_separated rfl line.state_word fun field hfield => ?_
  obtain ⟨i, rfl⟩ := mem_fields hfield
  exact numeral_word i

theorem name_found (line : StatLine) :
    find '(' line.text = some (utf8Length (numeral line.pid.toNat) + 1) := by
  have hpid : '(' ∉ numeral line.pid.toNat ++ [' '] := by
    rw [List.mem_append, not_or]
    exact ⟨not_mem_numeral (by decide) _, by decide⟩
  have htext : line.text = (numeral line.pid.toNat ++ [' ']) ++
      '(' :: (line.name ++ ')' :: ' ' :: line.trailing) := by
    rw [text, List.append_assoc]
    rfl
  rw [htext, find_append hpid, utf8Length_append]
  rfl

theorem name_closed (line : StatLine) :
    rfind ')' line.text =
      some (utf8Length (numeral line.pid.toNat) + 2 + utf8Length line.name) := by
  have htext : line.text = (numeral line.pid.toNat ++ ' ' :: '(' :: line.name) ++
      ')' :: ' ' :: line.trailing := by
    rw [text, List.append_assoc]
    rfl
  rw [htext, rfind_append _ line.trailing_open]
  simp only [utf8Length_append, utf8Length_cons]
  exact congrArg some (by change _ + (1 + (1 + _)) = _; omega)

theorem name_cut (line : StatLine) :
    get (utf8Length (numeral line.pid.toNat) + 1 + 1)
      (utf8Length (numeral line.pid.toNat) + 2 + utf8Length line.name) line.text =
        some line.name := by
  refine (get_eq_some_iff _ _ _ _).mpr
    ⟨numeral line.pid.toNat ++ [' ', '('], ')' :: ' ' :: line.trailing, ?_, ?_, by omega⟩
  · rw [text, List.append_assoc]
    rfl
  · rw [utf8Length_append]
    rfl

theorem trailing_cut (line : StatLine) :
    getFrom (utf8Length (numeral line.pid.toNat) + 2 + utf8Length line.name + 2) line.text =
      some line.trailing := by
  refine (getFrom_eq_some_iff _ _ _).mpr
    ⟨numeral line.pid.toNat ++ ' ' :: '(' :: (line.name ++ [')', ' ']), ?_, ?_⟩
  · simp [text]
  · simp only [utf8Length_append, utf8Length_cons, utf8Length_nil]
    change _ + (1 + (1 + (_ + (1 + (1 + 0))))) = _
    omega

theorem parentPid_field (line : StatLine) : (line.state :: line.fields)[1]? =
    some (Nat.toDigits 10 line.parentPid.toNat) := rfl

theorem startTicks_field (line : StatLine) : (line.state :: line.fields)[19]? =
    some (Nat.toDigits 10 line.startTicks.toNat) := by
  have hlength : (line.middle.map numeral).length = 17 := by
    rw [List.length_map, line.middle_length]
  change (line.middle.map numeral ++
    numeral line.startTicks.toNat :: line.rest.map numeral)[17]? = _
  rw [List.getElem?_append_right hlength.le, hlength]
  rfl

end StatLine

/-- The start time in microseconds, as far as it is a `u64`. -/
def startTimeMicros (ticksPerSecond : Int64) (startTicks : UInt64) : UInt64 :=
  saturatingMulU64 startTicks 1000000 / ticksPerSecond.toUInt64

theorem startTimeMicros_toNat {ticksPerSecond : Int64} (h : 0 < ticksPerSecond)
    (startTicks : UInt64) : (startTimeMicros ticksPerSecond startTicks).toNat =
      min (startTicks.toNat * 10 ^ 6) (2 ^ 64 - 1) / ticksPerSecond.toInt.toNat := by
  rw [startTimeMicros, UInt64.toNat_div, saturatingMulU64_toNat,
    Int64.toNat_toUInt64_of_le (Int64.le_of_lt h)]
  rfl

theorem parseStat_text (line : StatLine) {ticksPerSecond : Int64} (h : 0 < ticksPerSecond) :
    parseStat ticksPerSecond line.text =
      some (String.ofList line.name, line.parentPid,
        startTimeMicros ticksPerSecond line.startTicks) := by
  unfold parseStat
  rw [line.name_found, Option.bind_eq_bind, Option.bind_some]
  rw [line.name_closed, Option.bind_eq_bind, Option.bind_some]
  rw [line.name_cut, Option.bind_eq_bind, Option.bind_some]
  rw [line.trailing_cut, Option.bind_eq_bind, Option.bind_some]
  dsimp only
  rw [line.splitWhitespace_trailing, line.parentPid_field, line.startTicks_field]
  simp only [Option.bind_some, parseU32_toDigits, parseU64_toDigits]
  exact if_neg (Int64.not_le.mpr h)

/-- Whatever the name is, it is read back with the parent's id and the start time. -/
theorem parseStat_exact (line : StatLine) {ticksPerSecond : Int64} (h : 0 < ticksPerSecond) :
    ∃ start : UInt64,
      parseStat ticksPerSecond line.text =
        some (String.ofList line.name, line.parentPid, start) ∧
      start.toNat =
        min (line.startTicks.toNat * 10 ^ 6) (2 ^ 64 - 1) / ticksPerSecond.toInt.toNat :=
  ⟨_, parseStat_text line h, startTimeMicros_toNat h line.startTicks⟩

/-- A name that closes its parenthesis and goes on like a stat line. -/
def impostor : StatLine where
  pid := 42
  name := "init) S 1 1 1 0 (x".toList
  state := ['S']
  parentPid := 7
  middle := [1, 1, 0, -1, 0, 0, 0, 0, 0, 0, 0, 0, 0, 20, 0, 1, 0]
  startTicks := 12345
  rest := [0]
  ending := ['\n']
  state_word := ⟨by decide, List.forall_mem_singleton.mpr rfl⟩
  state_open := by decide
  middle_length := rfl
  ending_blank := List.forall_mem_singleton.mpr rfl

theorem parseStat_exact_impostor : ∃ start : UInt64,
    parseStat 100 impostor.text =
      some (String.ofList "init) S 1 1 1 0 (x".toList, 7, start) ∧
    start.toNat = min (12345 * 10 ^ 6) (2 ^ 64 - 1) / 100 :=
  @parseStat_exact impostor 100 (by decide)

structure ProcessInfo where
  pid : UInt32
  parentPid : UInt32
  uid : UInt32
  name : String
  executablePath : Option String
  startTimeMicros : UInt64
  architecture : String
  attachable : Bool
  attachabilityReason : Option String
  deriving DecidableEq, Repr

/-- What can be read of an entry of `/proc`: its name, the owner, `stat` and the target of `exe`. -/
structure ProcEntry where
  fileName : Option (List Char)
  uid : Option UInt32
  stat : Option (List Char)
  exe : Option String

def executableArchitecture (header : List UInt8) : Option String :=
  if header.take 4 ≠ [0x7F, 0x45, 0x4C, 0x46] then none
  else
    let machine := match header[5]?, header[18]?, header[19]? with
      | some 1, some a, some b => some (a.toNat + 256 * b.toNat)
      | some 2, some a, some b => some (256 * a.toNat + b.toNat)
      | _, _, _ => none
    machine.map fun
      | 62 => "x86_64"
      | 183 => "arm64"
      | _ => "unknown"

section

variable (ticksPerSecond : Int64) (currentUid : UInt32) (readHeader : String → Option (List UInt8))
variable (lowercase : String → String)

/-- One turn of the loop over `/proc`. -/
def processInfo (entry : ProcEntry) : Option ProcessInfo := do
  let pid ← parseU32 (← entry.fileName)
  let uid ← entry.uid
  if uid ≠ currentUid then none
  else do
    let stat ← entry.stat
    let (name, parentPid, startTimeMicros) ← parseStat ticksPerSecond stat
    let architecture := ((entry.exe.bind readHeader).bind executableArchitecture).getD "unknown"
    return { pid, parentPid, uid, name, executablePath := entry.exe, startTimeMicros, architecture
             attachable := true, attachabilityReason := none }

def listProcesses (entries : List ProcEntry) : List ProcessInfo :=
  (entries.filterMap (processInfo ticksPerSecond currentUid readHeader)).mergeSort fun a b =>
    ((compare (lowercase a.name) (lowercase b.name)).then (compare a.pid b.pid)).isLE

def validateProcessIdentity (pid : UInt32) (expected : UInt64) (actual : Option UInt64) :
    Except String Unit :=
  if actual ≠ some expected then
    .error s!"cannot attach to pid {pid}: the selected process exited or its PID was reused"
  else .ok ()

/-- The check at the start of `attach_command`. -/
def checkIdentity (processes : List ProcessInfo) (pid : UInt32)
    (expectedStartTime : Option UInt64) : Except String Unit :=
  let targetProcess := processes.find? fun process => process.pid = pid
  match expectedStartTime with
  | none => .ok ()
  | some expected =>
    validateProcessIdentity pid expected (targetProcess.map ProcessInfo.startTimeMicros)

theorem validateProcessIdentity_eq_ok_iff (pid : UInt32) (expected : UInt64)
    (actual : Option UInt64) :
    validateProcessIdentity pid expected actual = .ok () ↔ actual = some expected := by
  unfold validateProcessIdentity
  split_ifs with h
  · simp [h]
  · simp [not_not.mp h]

theorem processInfo_stat {entry : ProcEntry} {line : StatLine}
    (hname : entry.fileName = some (numeral line.pid.toNat)) (huid : entry.uid = some currentUid)
    (hstat : entry.stat = some line.text) (h : 0 < ticksPerSecond) :
    ∃ info, processInfo ticksPerSecond currentUid readHeader entry = some info ∧
      info.pid = line.pid ∧
      info.startTimeMicros = startTimeMicros ticksPerSecond line.startTicks := by
  have hpid : parseU32 (numeral line.pid.toNat) = some line.pid := parseU32_toDigits line.pid
  unfold processInfo
  rw [hname, huid, hstat]
  simp only [Option.bind_eq_bind, Option.bind_some, hpid, parseStat_text line h, ne_eq,
    not_true_eq_false, if_false]
  exact ⟨_, rfl, rfl, rfl⟩

theorem processInfo_pid {entry : ProcEntry} {info : ProcessInfo}
    (h : processInfo ticksPerSecond currentUid readHeader entry = some info) :
    entry.fileName.bind parseU32 = some info.pid := by
  unfold processInfo at h
  obtain ⟨name, hname, h⟩ := Option.bind_eq_some_iff.mp h
  obtain ⟨pid, hpid, h⟩ := Option.bind_eq_some_iff.mp h
  obtain ⟨uid, huid, h⟩ := Option.bind_eq_some_iff.mp h
  rw [hname, Option.bind_some, hpid]
  split_ifs at h with hcurrent
  obtain ⟨stat, hstat, h⟩ := Option.bind_eq_some_iff.mp h
  obtain ⟨parsed, hparsed, h⟩ := Option.bind_eq_some_iff.mp h
  cases h
  rfl

theorem find?_listed {processes listed : List ProcessInfo} (hperm : listed.Perm processes)
    {info : ProcessInfo} (hinfo : info ∈ processes)
    (hunique : ∀ other ∈ processes, other.pid = info.pid → other = info) :
    (listed.find? fun process => process.pid = info.pid) = some info := by
  cases h : listed.find? fun process => process.pid = info.pid with
  | none =>
    rw [List.find?_eq_none] at h
    exact absurd (decide_eq_true rfl) (h info (hperm.mem_iff.mpr hinfo))
  | some other =>
    have hpid : other.pid = info.pid := by simpa using List.find?_some h
    rw [hunique other (hperm.mem_iff.mp (List.mem_of_find?_eq_some h)) hpid]

/-- A process is attached to exactly when its start time is the expected one, whatever its name
and those of the others are. -/
theorem checkIdentity_iff {entries : List ProcEntry} {entry : ProcEntry} {line : StatLine}
    (hentry : entry ∈ entries)
    (hname : entry.fileName = some (numeral line.pid.toNat)) (huid : entry.uid = some currentUid)
    (hstat : entry.stat = some line.text) (h : 0 < ticksPerSecond)
    (hunique : ∀ other ∈ entries, other.fileName.bind parseU32 = some line.pid → other = entry)
    (expected : UInt64) :
    checkIdentity (listProcesses ticksPerSecond currentUid readHeader lowercase entries) line.pid
        (some expected) = .ok () ↔
      expected = startTimeMicros ticksPerSecond line.startTicks := by
  obtain ⟨info, hinfo, hpid, hstart⟩ :=
    processInfo_stat ticksPerSecond currentUid readHeader hname huid hstat h
  have hfound : (listProcesses ticksPerSecond currentUid readHeader lowercase entries).find?
      (fun process => process.pid = line.pid) = some info := by
    rw [← hpid]
    refine find?_listed (List.mergeSort_perm _ _) (List.mem_filterMap.mpr ⟨entry, hentry, hinfo⟩) ?_
    intro other hother hsame
    obtain ⟨source, hsource, hother⟩ := List.mem_filterMap.mp hother
    have hparsed := processInfo_pid _ _ _ hother
    rw [hsame, hpid] at hparsed
    rw [hunique source hsource hparsed, hinfo] at hother
    exact (Option.some.inj hother).symm
  rw [checkIdentity, hfound]
  rw [validateProcessIdentity_eq_ok_iff, Option.map_some, hstart, Option.some.injEq, eq_comm]

end

end PProfessor.Processes
