import PProfessor.CheckedArith
import PProfessor.KitFrames

set_option autoImplicit false

/-!
# The session publisher

`SessionPublisher` of `src/stream.rs`: it opens a connection when it has none, says Hello on it,
numbers its frames, and gives a connection up at the first write that fails. What the operating
system answers is an input of each call.
-/
namespace PProfessor.SessionStream
open CheckedArith Framing Kit

/-- `std::io::ErrorKind`, as far as it is told apart. -/
inductive ErrorKind where
  | brokenPipe
  | connectionReset
  | connectionRefused
  | timedOut
  | wouldBlock
  | other
  deriving DecidableEq, Repr

/-- The two `write_all` calls of one frame: all bytes accepted, or some and then an error. -/
inductive WriteOutcome where
  | whole
  | cut (accepted : ℕ) (kind : ErrorKind)
  deriving DecidableEq, Repr

inductive ConnectOutcome where
  /-- `connect_timeout` fails. -/
  | refused (kind : ErrorKind)
  /-- The connection is there, but its options cannot be set. -/
  | unusable (kind : ErrorKind)
  | connected (hello : WriteOutcome)
  deriving DecidableEq, Repr

/-- What one connection accepted: whole frames, and the beginning of one more whose write
failed. -/
structure Socket where
  frames : List WrittenFrame
  cut : Option (WrittenFrame × ℕ)
  deriving DecidableEq, Repr

def Socket.empty : Socket := ⟨[], none⟩

def Socket.bytes (socket : Socket) : List UInt8 :=
  written WrittenFrame.bytes socket.frames ++
    match socket.cut with
    | none => []
    | some (frame, accepted) => frame.bytes.take accepted

/-- Connections are numbered in the order in which they are opened. -/
structure SessionPublisher where
  stream : Option ℕ
  sequence : UInt64
  justConnected : Bool
  opened : ℕ
  sockets : ℕ → Socket

namespace SessionPublisher

def new : SessionPublisher where
  stream := none
  sequence := 0
  justConnected := false
  opened := 0
  sockets _ := .empty

def setSocket (p : SessionPublisher) (connection : ℕ) (socket : Socket) : SessionPublisher :=
  { p with sockets := Function.update p.sockets connection socket }

/-- `self.sequence.saturating_add(1)`. -/
def nextSequence (p : SessionPublisher) : UInt64 := saturatingAddU64 p.sequence 1

def takeJustConnected (p : SessionPublisher) : Bool × SessionPublisher :=
  (p.justConnected, { p with justConnected := false })

def connect (p : SessionPublisher) (hello : List UInt8) :
    ConnectOutcome → Except ErrorKind Bool × SessionPublisher
  | .refused kind =>
    if kind ∈ [.connectionRefused, .timedOut] then (.ok false, p) else (.error kind, p)
  | .unusable kind => (.error kind, { p with opened := p.opened + 1 })
  | .connected outcome =>
    let frame : WrittenFrame := ⟨.hello, p.nextSequence, hello⟩
    let p' := { p with sequence := p.nextSequence, opened := p.opened + 1 }
    match outcome with
    | .whole =>
      (.ok true, { p'.setSocket p.opened ⟨[frame], none⟩ with
        stream := some p.opened
        justConnected := true })
    | .cut accepted kind => (.error kind, p'.setSocket p.opened ⟨[], some (frame, accepted)⟩)

def ensureConnected (p : SessionPublisher) (hello : List UInt8) (outcome : ConnectOutcome) :
    Except ErrorKind Bool × SessionPublisher :=
  match p.stream with
  | some _ => (.ok true, p)
  | none => p.connect hello outcome

/-- `send`, once there is a connection. -/
def sendOn (p : SessionPublisher) (connection : ℕ) (kind : FrameKind) (payload : List UInt8) :
    WriteOutcome → Except ErrorKind Bool × SessionPublisher
  | .whole =>
    let socket := p.sockets connection
    (.ok true, { p.setSocket connection
        ⟨socket.frames ++ [⟨kind, p.nextSequence, payload⟩], socket.cut⟩ with
      sequence := p.nextSequence })
  | .cut accepted error =>
    let socket := p.sockets connection
    let p' := { p.setSocket connection
        ⟨socket.frames, some (⟨kind, p.nextSequence, payload⟩, accepted)⟩ with
      sequence := p.nextSequence
      stream := none }
    if error ∈ [.brokenPipe, .connectionReset, .timedOut, .wouldBlock] then (.ok false, p')
    else (.error error, p')

def send (p : SessionPublisher) (hello : List UInt8) (kind : FrameKind) (payload : List UInt8)
    (connecting : ConnectOutcome) (writing : WriteOutcome) :
    Except ErrorKind Bool × SessionPublisher :=
  match p.ensureConnected hello connecting with
  | (.ok true, p) =>
    match p.stream with
    | some connection => p.sendOn connection kind payload writing
    | none => (.ok false, p)
  | unsent => unsent

end SessionPublisher

def WriteOutcome.Short (outcome : WriteOutcome) (payload : List UInt8) : Prop :=
  ∀ accepted kind, outcome = .cut accepted kind →
    accepted < SessionFrameHeader.encodedLength + payload.length

def ConnectOutcome.Short (outcome : ConnectOutcome) (hello : List UInt8) : Prop :=
  ∀ write, outcome = .connected write → write.Short hello

/-! ## What a connection accepts only grows -/

def Socket.begun (socket : Socket) : List WrittenFrame :=
  socket.frames ++ (socket.cut.map Prod.fst).toList

structure Socket.Grows (s s' : Socket) : Prop where
  frames : s.frames <+: s'.frames
  bytes : s.bytes <+: s'.bytes
  begun : ∀ f ∈ s.begun, f ∈ s'.begun

namespace Socket.Grows

theorem refl (s : Socket) : s.Grows s :=
  ⟨List.prefix_refl _, List.prefix_refl _, fun _ hf => hf⟩

theorem trans {s s' s'' : Socket} (h : s.Grows s') (h' : s'.Grows s'') : s.Grows s'' :=
  ⟨h.frames.trans h'.frames, h.bytes.trans h'.bytes, fun f hf => h'.begun f (h.begun f hf)⟩

theorem append {s : Socket} (h : s.cut = none) (frame : WrittenFrame) :
    s.Grows ⟨s.frames ++ [frame], s.cut⟩ where
  frames := List.prefix_append ..
  bytes := by
    rw [Socket.bytes, Socket.bytes, h, written_append]
    simp only [List.append_nil]
    exact List.prefix_append ..
  begun f hf := by
    rw [Socket.begun, h] at hf ⊢
    simp only [Option.map_none, Option.toList_none, List.append_nil] at hf ⊢
    exact List.mem_append_left _ hf

theorem cutOff {s : Socket} (h : s.cut = none) (frame : WrittenFrame) (accepted : ℕ) :
    s.Grows ⟨s.frames, some (frame, accepted)⟩ where
  frames := List.prefix_refl _
  bytes := by
    rw [Socket.bytes, Socket.bytes, h]
    simp only [List.append_nil]
    exact List.prefix_append ..
  begun f hf := by
    rw [Socket.begun, h] at hf
    simp only [Option.map_none, Option.toList_none, List.append_nil] at hf
    exact List.mem_append_left _ hf

theorem of_empty (s : Socket) : Socket.empty.Grows s where
  frames := List.nil_prefix
  bytes := List.nil_prefix
  begun _ hf := nomatch hf

end Socket.Grows

namespace SessionPublisher

variable {p : SessionPublisher} {hello payload : List UInt8} {kind : FrameKind}

theorem sequence_le_next (p : SessionPublisher) : p.sequence ≤ p.nextSequence := by
  unfold nextSequence saturatingAddU64 addU64
  rw [UInt64.le_iff_toNat_le]
  split_ifs with h
  · rw [Option.getD_some, UInt64.toNat_add, Nat.mod_eq_of_lt h]
    omega
  · have := p.sequence.toNat_lt
    rw [Option.getD_none]
    change p.sequence.toNat ≤ 2 ^ 64 - 1
    omega

theorem next_pos (p : SessionPublisher) : 0 < p.nextSequence := by
  unfold nextSequence saturatingAddU64 addU64
  rw [UInt64.lt_iff_toNat_lt]
  split_ifs with h
  · rw [Option.getD_some, UInt64.toNat_add, Nat.mod_eq_of_lt h]
    exact Nat.succ_pos _
  · decide

/-- What holds of a publisher and its connections in every run. -/
structure Sound (hello : List UInt8) (p : SessionPublisher) : Prop where
  current : ∀ c, p.stream = some c → c < p.opened ∧ (p.sockets c).cut = none ∧
    (p.sockets c).frames ≠ []
  unopened : ∀ c, p.opened ≤ c → p.sockets c = .empty
  length : ∀ c, ∀ f ∈ (p.sockets c).begun, f.payload.length < 2 ^ 64
  sequence : ∀ c, ∀ f ∈ (p.sockets c).begun, f.sequence ≤ p.sequence
  positive : ∀ c, ∀ f ∈ (p.sockets c).begun, 0 < f.sequence
  cut : ∀ c f accepted, (p.sockets c).cut = some (f, accepted) → accepted < f.bytes.length
  first : ∀ c f, (p.sockets c).frames.head? = some f → f.kind = .hello ∧ f.payload = hello
  later : ∀ c, ∀ f ∈ (p.sockets c).frames.tail, f.kind ≠ .hello

theorem new_sound : new.Sound hello where
  current _ hc := nomatch hc
  unopened _ _ := rfl
  length _ _ hf := nomatch hf
  sequence _ _ hf := nomatch hf
  positive _ _ hf := nomatch hf
  cut _ _ _ hcut := nomatch hcut
  first _ _ hf := nomatch hf
  later _ _ hf := nomatch hf

/-- One connection changes, and the sequence does not go back. -/
theorem Sound.setSocket {p' : SessionPublisher} {c : ℕ} {socket : Socket} (h : p.Sound hello)
    (hsockets : p'.sockets = Function.update p.sockets c socket)
    (hsequence : p.sequence ≤ p'.sequence) (hopened : p.opened ≤ p'.opened)
    (hc : c < p'.opened)
    (hcurrent : ∀ c', p'.stream = some c' → c' < p'.opened ∧ (p'.sockets c').cut = none ∧
      (p'.sockets c').frames ≠ [])
    (hbegun : ∀ f ∈ socket.begun,
      f.payload.length < 2 ^ 64 ∧ f.sequence ≤ p'.sequence ∧ 0 < f.sequence)
    (hcut : ∀ f accepted, socket.cut = some (f, accepted) → accepted < f.bytes.length)
    (hfirst : ∀ f, socket.frames.head? = some f → f.kind = .hello ∧ f.payload = hello)
    (hlater : ∀ f ∈ socket.frames.tail, f.kind ≠ .hello) : p'.Sound hello := by
  have hself : p'.sockets c = socket := by rw [hsockets, Function.update_self]
  have hother : ∀ c', c' ≠ c → p'.sockets c' = p.sockets c' := fun c' hc' => by
    rw [hsockets, Function.update_of_ne hc']
  refine ⟨hcurrent, fun c' hc' => ?_, fun c' f hf => ?_, fun c' f hf => ?_, fun c' f hf => ?_,
    fun c' f accepted hf => ?_, fun c' f hf => ?_, fun c' f hf => ?_⟩
  all_goals by_cases he : c' = c
  · omega
  · rw [hother c' he]
    exact h.unopened c' (by omega)
  · rw [he, hself] at hf
    exact (hbegun f hf).1
  · rw [hother c' he] at hf
    exact h.length c' f hf
  · rw [he, hself] at hf
    exact (hbegun f hf).2.1
  · rw [hother c' he] at hf
    exact UInt64.le_trans (h.sequence c' f hf) hsequence
  · rw [he, hself] at hf
    exact (hbegun f hf).2.2
  · rw [hother c' he] at hf
    exact h.positive c' f hf
  · rw [he, hself] at hf
    exact hcut f accepted hf
  · rw [hother c' he] at hf
    exact h.cut c' f accepted hf
  · rw [he, hself] at hf
    exact hfirst f hf
  · rw [hother c' he] at hf
    exact h.first c' f hf
  · rw [he, hself] at hf
    exact hlater f hf
  · rw [hother c' he] at hf
    exact h.later c' f hf

/-- A step of the publisher: every connection accepts at least what it had accepted. -/
structure Leads (hello : List UInt8) (p p' : SessionPublisher) : Prop where
  sound : p'.Sound hello
  grows : ∀ c, (p.sockets c).Grows (p'.sockets c)
  sequence : p.sequence ≤ p'.sequence

theorem Leads.refl (h : p.Sound hello) : Leads hello p p :=
  ⟨h, fun c => .refl (p.sockets c), UInt64.le_refl _⟩

theorem Leads.trans {p' p'' : SessionPublisher} (h : Leads hello p p')
    (h' : Leads hello p' p'') : Leads hello p p'' :=
  ⟨h'.sound, fun c => (h.grows c).trans (h'.grows c), UInt64.le_trans h.sequence h'.sequence⟩

theorem grows_update {c : ℕ} {socket : Socket} (h : (p.sockets c).Grows socket) (c' : ℕ) :
    (p.sockets c').Grows (Function.update p.sockets c socket c') := by
  by_cases he : c' = c
  · subst he
    rw [Function.update_self]
    exact h
  · rw [Function.update_of_ne he]
    exact .refl _

theorem length_hello (sequence : UInt64) :
    (WrittenFrame.bytes ⟨.hello, sequence, hello⟩).length =
      SessionFrameHeader.encodedLength + hello.length := WrittenFrame.length_bytes _

/-- The rule for `connect`. -/
theorem connect_leads {outcome : ConnectOutcome} (h : p.Sound hello)
    (hhello : hello.length < 2 ^ 64) (hshort : outcome.Short hello) (hclosed : p.stream = none) :
    Leads hello p (p.connect hello outcome).2 := by
  have hnew : p.sockets p.opened = .empty := h.unopened _ (Nat.le_refl _)
  have hgrows (socket : Socket) (c : ℕ) :
      (p.sockets c).Grows (Function.update p.sockets p.opened socket c) :=
    grows_update (hnew ▸ .of_empty socket) c
  cases outcome with
  | refused kind =>
    unfold connect
    dsimp only
    split_ifs <;> exact .refl h
  | unusable kind =>
    refine ⟨?_, fun c => .refl _, UInt64.le_refl _⟩
    exact ⟨fun c hc => absurd (hclosed.symm.trans hc) nofun, fun c hc => h.unopened c (by
      change p.opened + 1 ≤ c at hc
      omega), h.length, h.sequence, h.positive, h.cut, h.first, h.later⟩
  | connected write =>
    cases write with
    | whole =>
      refine ⟨?_, hgrows _, p.sequence_le_next⟩
      refine h.setSocket (c := p.opened) rfl p.sequence_le_next (Nat.le_succ _) (Nat.lt_succ_self _)
        ?_ ?_ ?_ ?_ ?_
      · intro c hc
        cases hc
        change p.opened < p.opened + 1 ∧
          (Function.update p.sockets p.opened _ p.opened).cut = none ∧
            (Function.update p.sockets p.opened _ p.opened).frames ≠ []
        rw [Function.update_self]
        exact ⟨Nat.lt_succ_self _, rfl, List.cons_ne_nil _ _⟩
      · intro f hf
        cases List.mem_singleton.mp hf
        exact ⟨hhello, UInt64.le_refl _, p.next_pos⟩
      · exact fun f accepted hf => nomatch hf
      · intro f hf
        cases hf
        exact ⟨rfl, rfl⟩
      · exact fun f hf => nomatch hf
    | cut accepted kind =>
      refine ⟨?_, hgrows _, p.sequence_le_next⟩
      refine h.setSocket (c := p.opened) rfl p.sequence_le_next (Nat.le_succ _) (Nat.lt_succ_self _)
        ?_ ?_ ?_ ?_ ?_
      · exact fun c hc => absurd (hclosed.symm.trans hc) nofun
      · intro f hf
        cases List.mem_singleton.mp hf
        exact ⟨hhello, UInt64.le_refl _, p.next_pos⟩
      · intro f k hf
        cases hf
        rw [length_hello]
        exact hshort _ rfl _ _ rfl
      · exact fun f hf => nomatch hf
      · exact fun f hf => nomatch hf

theorem ensureConnected_leads {outcome : ConnectOutcome} (h : p.Sound hello)
    (hhello : hello.length < 2 ^ 64) (hshort : outcome.Short hello) :
    Leads hello p (p.ensureConnected hello outcome).2 := by
  unfold ensureConnected
  split
  · exact .refl h
  · rename_i hclosed
    exact connect_leads h hhello hshort hclosed

/-- The rule for a frame on an open connection. -/
theorem sendOn_leads {c : ℕ} {outcome : WriteOutcome} (h : p.Sound hello)
    (hopen : p.stream = some c) (hkind : kind ≠ .hello) (hpayload : payload.length < 2 ^ 64)
    (hshort : outcome.Short payload) : Leads hello p (p.sendOn c kind payload outcome).2 := by
  obtain ⟨hlt, hcut, hne⟩ := h.current c hopen
  have hold : ∀ f ∈ (p.sockets c).frames, f ∈ (p.sockets c).begun :=
    fun f hf => List.mem_append_left _ hf
  have hframe : ∀ f ∈ (p.sockets c).frames,
      f.payload.length < 2 ^ 64 ∧ f.sequence ≤ p.nextSequence ∧ 0 < f.sequence := fun f hf =>
    ⟨h.length c f (hold f hf), UInt64.le_trans (h.sequence c f (hold f hf)) p.sequence_le_next,
      h.positive c f (hold f hf)⟩
  cases outcome with
  | whole =>
    refine ⟨?_, grows_update (.append hcut _), p.sequence_le_next⟩
    refine h.setSocket (c := c) rfl p.sequence_le_next (Nat.le_refl _) hlt ?_ ?_ ?_ ?_ ?_
    · intro c' hc'
      cases hopen.symm.trans hc'
      change c < p.opened ∧ (Function.update p.sockets c _ c).cut = none ∧
        (Function.update p.sockets c _ c).frames ≠ []
      rw [Function.update_self]
      exact ⟨hlt, hcut, List.append_ne_nil_of_right_ne_nil _ (List.cons_ne_nil _ _)⟩
    · intro f hf
      rw [Socket.begun, hcut] at hf
      simp only [Option.map_none, Option.toList_none, List.append_nil] at hf
      rcases List.mem_append.mp hf with hf | hf
      · exact hframe f hf
      · cases List.mem_singleton.mp hf
        exact ⟨hpayload, UInt64.le_refl _, p.next_pos⟩
    · intro f accepted hf
      rw [hcut] at hf
      cases hf
    · intro f hf
      rw [List.head?_append_of_ne_nil _ hne] at hf
      exact h.first c f hf
    · intro f hf
      rw [List.tail_append_of_ne_nil hne] at hf
      rcases List.mem_append.mp hf with hf | hf
      · exact h.later c f hf
      · cases List.mem_singleton.mp hf
        exact hkind
  | cut accepted error =>
    have hleads : Leads hello p { p.setSocket c
        ⟨(p.sockets c).frames, some (⟨kind, p.nextSequence, payload⟩, accepted)⟩ with
          sequence := p.nextSequence
          stream := none } := by
      refine ⟨?_, grows_update (.cutOff hcut _ _), p.sequence_le_next⟩
      refine h.setSocket (c := c) rfl p.sequence_le_next (Nat.le_refl _) hlt ?_ ?_ ?_ ?_ ?_
      · exact fun c' hc' => nomatch hc'
      · intro f hf
        rcases List.mem_append.mp hf with hf | hf
        · exact hframe f hf
        · cases List.mem_singleton.mp hf
          exact ⟨hpayload, UInt64.le_refl _, p.next_pos⟩
      · intro f k hf
        cases hf
        rw [WrittenFrame.length_bytes]
        exact hshort _ _ rfl
      · exact h.first c
      · exact h.later c
    unfold sendOn
    dsimp only
    split_ifs <;> exact hleads

/-- The rule for `send`. -/
theorem send_leads {connecting : ConnectOutcome} {writing : WriteOutcome} (h : p.Sound hello)
    (hhello : hello.length < 2 ^ 64) (hkind : kind ≠ .hello) (hpayload : payload.length < 2 ^ 64)
    (hconnecting : connecting.Short hello) (hwriting : writing.Short payload) :
    Leads hello p (p.send hello kind payload connecting writing).2 := by
  have hensured := ensureConnected_leads h hhello hconnecting
  unfold send
  split
  · rename_i p' heq
    rw [heq] at hensured
    split
    · rename_i c hopen
      exact hensured.trans (sendOn_leads hensured.sound hopen hkind hpayload hwriting)
    · exact hensured
  · exact hensured

theorem flatMap_range_update {α : Type} (g : ℕ → List α) {c n : ℕ} (h : n ≤ c) (xs : List α) :
    (List.range n).flatMap (Function.update g c xs) = (List.range n).flatMap g := by
  apply List.flatMap_congr
  intro i hi
  have hlt := List.mem_range.mp hi
  rw [Function.update_of_ne (by omega)]

theorem flatMap_range_append {α : Type} (g : ℕ → List α) {c n : ℕ} (h : c < n) (xs : List α) :
    ((List.range n).flatMap (Function.update g c (g c ++ xs))).Perm
      ((List.range n).flatMap g ++ xs) := by
  induction n with
  | zero => omega
  | succ n ih =>
    rw [List.range_succ, List.flatMap_append, List.flatMap_append, List.flatMap_singleton,
      List.flatMap_singleton]
    by_cases he : c = n
    · subst he
      rw [flatMap_range_update g (Nat.le_refl c), Function.update_self, ← List.append_assoc]
    · rw [Function.update_of_ne (Ne.symm he)]
      refine ((ih (by omega)).append_right (g n)).trans ?_
      rw [List.append_assoc, List.append_assoc]
      exact List.perm_append_comm.append_left _

def dataFrames (socket : Socket) : List WrittenFrame :=
  socket.frames.filter fun f => f.kind ≠ .hello

def sentFrames (p : SessionPublisher) : List WrittenFrame :=
  (List.range p.opened).flatMap fun c => dataFrames (p.sockets c)

theorem mem_sentFrames {f : WrittenFrame} {c : ℕ} (h : p.Sound hello)
    (hf : f ∈ (p.sockets c).frames) (hkind : f.kind ≠ .hello) : f ∈ p.sentFrames := by
  have hlt : c < p.opened := by
    by_contra hge
    rw [h.unopened c (Nat.le_of_not_lt hge)] at hf
    cases hf
  rw [sentFrames, List.mem_flatMap]
  exact ⟨c, List.mem_range.mpr hlt, List.mem_filter.mpr ⟨hf, by simpa using hkind⟩⟩

theorem sentFrames_sequence {f : WrittenFrame} (h : p.Sound hello) (hf : f ∈ p.sentFrames) :
    f.sequence ≤ p.sequence := by
  obtain ⟨c, -, hf⟩ := List.mem_flatMap.mp hf
  exact h.sequence c f (List.mem_append_left _ (List.mem_filter.mp hf).1)

theorem sentFrames_opened {p' : SessionPublisher} (socket : Socket)
    (hopened : p'.opened = p.opened + 1)
    (hsockets : p'.sockets = Function.update p.sockets p.opened socket)
    (hsocket : dataFrames socket = []) : p'.sentFrames = p.sentFrames := by
  rw [sentFrames, hopened, List.range_succ, List.flatMap_append, List.flatMap_singleton, hsockets,
    Function.update_self, hsocket, List.append_nil, sentFrames]
  apply List.flatMap_congr
  intro c hc
  have hlt := List.mem_range.mp hc
  rw [Function.update_of_ne (by omega)]

theorem connect_sentFrames (outcome : ConnectOutcome) (h : p.Sound hello) :
    (p.connect hello outcome).2.sentFrames = p.sentFrames := by
  have hnew : p.sockets p.opened = .empty := h.unopened _ (Nat.le_refl _)
  cases outcome with
  | refused kind =>
    unfold connect
    dsimp only
    split_ifs <;> rfl
  | unusable kind =>
    exact sentFrames_opened .empty rfl (by
      rw [← hnew, Function.update_eq_self]
      rfl) rfl
  | connected write => cases write <;> exact sentFrames_opened _ rfl rfl rfl

theorem ensureConnected_sentFrames (outcome : ConnectOutcome) (h : p.Sound hello) :
    (p.ensureConnected hello outcome).2.sentFrames = p.sentFrames := by
  unfold ensureConnected
  split
  · rfl
  · exact connect_sentFrames outcome h

theorem sendOn_sentFrames {c : ℕ} (payload : List UInt8) (outcome : WriteOutcome)
    (hlt : c < p.opened) (hkind : kind ≠ .hello) :
    let sent := p.sendOn c kind payload outcome
    (sent.1 = .ok true ∧ sent.2.sentFrames.Perm
      (p.sentFrames ++ [⟨kind, sent.2.sequence, payload⟩])) ∨
    (∀ b, sent.1 = .ok b → b = false) ∧ sent.2.sentFrames = p.sentFrames := by
  have hfilter : ∀ frames : List WrittenFrame,
      dataFrames ⟨frames ++ [⟨kind, p.nextSequence, payload⟩], (p.sockets c).cut⟩ =
        frames.filter (fun f => f.kind ≠ .hello) ++ [⟨kind, p.nextSequence, payload⟩] := by
    intro frames
    rw [dataFrames, List.filter_append]
    simp [hkind]
  cases outcome with
  | whole =>
    refine .inl ⟨rfl, ?_⟩
    have hfun : (fun i => dataFrames ((p.sendOn c kind payload .whole).2.sockets i)) =
        Function.update (fun i => dataFrames (p.sockets i)) c
          (dataFrames (p.sockets c) ++ [⟨kind, p.nextSequence, payload⟩]) := by
      funext i
      change dataFrames (Function.update p.sockets c _ i) = _
      by_cases hi : i = c
      · subst hi
        rw [Function.update_self, Function.update_self, hfilter]
        rfl
      · rw [Function.update_of_ne hi, Function.update_of_ne hi]
    rw [sentFrames, hfun]
    exact flatMap_range_append _ hlt _
  | cut accepted error =>
    right
    have hfun : ∀ p' : SessionPublisher, p'.opened = p.opened → p'.sockets =
        Function.update p.sockets c ⟨(p.sockets c).frames,
          some (⟨kind, p.nextSequence, payload⟩, accepted)⟩ → p'.sentFrames = p.sentFrames := by
      intro p' hopened hsockets
      rw [sentFrames, sentFrames, hopened, hsockets]
      apply List.flatMap_congr
      intro i _
      by_cases hi : i = c
      · subst hi
        rw [Function.update_self]
        rfl
      · rw [Function.update_of_ne hi]
    have hsame := hfun { p.setSocket c
        ⟨(p.sockets c).frames, some (⟨kind, p.nextSequence, payload⟩, accepted)⟩ with
          sequence := p.nextSequence
          stream := none } rfl rfl
    unfold sendOn
    dsimp only
    split_ifs
    · refine ⟨fun b hb => ?_, hsame⟩
      cases hb
      rfl
    · exact ⟨fun b hb => (nomatch hb), hsame⟩

/-- A frame is written whole exactly if `send` returns `Ok(true)`. -/
theorem send_sentFrames {connecting : ConnectOutcome} (payload : List UInt8)
    (writing : WriteOutcome) (h : p.Sound hello) (hhello : hello.length < 2 ^ 64)
    (hkind : kind ≠ .hello) (hconnecting : connecting.Short hello) :
    let sent := p.send hello kind payload connecting writing
    (sent.1 = .ok true ∧ sent.2.sentFrames.Perm
      (p.sentFrames ++ [⟨kind, sent.2.sequence, payload⟩])) ∨
    (∀ b, sent.1 = .ok b → b = false) ∧ sent.2.sentFrames = p.sentFrames := by
  have hsame := ensureConnected_sentFrames connecting h
  have hsound := (ensureConnected_leads h hhello hconnecting).sound
  unfold send
  split
  · rename_i p' heq
    rw [heq] at hsame hsound
    split
    · rename_i c hopen
      have hsent := sendOn_sentFrames payload writing (hsound.current c hopen).1 hkind
      dsimp only at hsame hsent ⊢
      rwa [hsame] at hsent
    · refine .inr ⟨fun b hb => ?_, hsame⟩
      cases hb
      rfl
  · rename_i hunsent
    refine .inr ⟨fun b hb => ?_, hsame⟩
    cases b with
    | true => exact (hunsent _ (Prod.ext hb rfl)).elim
    | false => rfl

end SessionPublisher

end PProfessor.SessionStream
