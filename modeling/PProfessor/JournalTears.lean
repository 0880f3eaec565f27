import PProfessor.KitFrameErrors
import PProfessor.SessionRecovery

set_option autoImplicit false

/-!
# Writes to the journal that fail half way

`appendJournal` swallows write errors, and the next frame goes to the end of the file. Bytes of
a frame that was written in part do no harm at the end of the journal; a frame behind them is
not found.
-/
namespace PProfessor.Coordinator
open Kit Framing

/-- One call of `appendJournal`: how many bytes reached the file, if it could be opened. -/
structure JournalWrite where
  frame : SessionFrame
  persisted : Option ℕ

namespace JournalWrite

def bytes (w : JournalWrite) : List UInt8 := w.frame.bytes.take (w.persisted.getD 0)

def Complete (w : JournalWrite) : Prop := w.frame.bytes.length ≤ w.persisted.getD 0

instance (w : JournalWrite) : Decidable w.Complete := inferInstanceAs (Decidable (_ ≤ _))

theorem bytes_of_complete {w : JournalWrite} (h : w.Complete) : w.bytes = w.frame.bytes :=
  List.take_of_length_le h

end JournalWrite

/-- `appendJournal`, as far as it gets. -/
def State.appendPersisted (s : State) (sessionID : UUID) (w : JournalWrite) : State :=
  match w.persisted with
  | none => s
  | some _ => s.setFile (journalPath sessionID)
      (some ((s.files sessionID "live.journal").getD [] ++ w.bytes))

def State.appendAll (s : State) (sessionID : UUID) (ws : List JournalWrite) : State :=
  ws.foldl (fun s w => s.appendPersisted sessionID w) s

def journalBytes (ws : List JournalWrite) : List UInt8 := ws.flatMap JournalWrite.bytes

def completeFrames (ws : List JournalWrite) : List SessionFrame :=
  (ws.filter JournalWrite.Complete).map JournalWrite.frame

theorem State.appendAll_journal (s : State) (id : UUID) (ws : List JournalWrite) :
    (s.appendAll id ws).files id "live.journal" =
      if ∃ w ∈ ws, w.persisted ≠ none then
        some ((s.files id "live.journal").getD [] ++ journalBytes ws)
      else s.files id "live.journal" := by
  induction ws generalizing s with
  | nil => simp [appendAll]
  | cons w ws ih =>
    change ((s.appendPersisted id w).appendAll id ws).files id "live.journal" = _
    rw [ih]
    unfold appendPersisted
    cases hw : w.persisted with
    | none =>
      have hbytes : journalBytes (w :: ws) = journalBytes ws := by
        simp [journalBytes, JournalWrite.bytes, hw]
      simp [hw, hbytes]
    | some n =>
      have hfile : (s.setFile (journalPath id) (some ((s.files id "live.journal").getD [] ++
          w.bytes))).files id "live.journal" =
          some ((s.files id "live.journal").getD [] ++ w.bytes) := by
        simp [setFile, journalPath]
      simp only [hfile]
      have hopened : ∃ v ∈ w :: ws, v.persisted ≠ none := ⟨w, List.mem_cons_self, by simp [hw]⟩
      rw [if_pos hopened]
      split_ifs with hlater
      · simp [journalBytes]
      · have hnothing : journalBytes ws = [] := by
          rw [journalBytes, List.flatMap_eq_nil_iff]
          intro v hv
          have hnone : v.persisted = none := by
            by_contra hne
            exact hlater ⟨v, hv, hne⟩
          simp [JournalWrite.bytes, hnone]
        simp [journalBytes] at hnothing ⊢
        exact hnothing

/-- Replaying comes to the frames that were persisted completely, in order. -/
def ReplaysComplete (F : Foundation) (s : State) (id : UUID) (ws : List JournalWrite) : Prop :=
  (s.appendAll id ws).replayJournal F (journalPath id) id =
    if ∃ w ∈ ws, w.persisted ≠ none then do
      let runtime ← (completeFrames ws).foldlM (RuntimeSession.replay F) (.new F)
      .ok (some runtime.accumulator.profile, (s.appendAll id ws).setRuntime id runtime)
    else .ok (none, s.appendAll id ws)

theorem replaysComplete_of_parsed {F : Foundation} {s : State} {id : UUID} {ws : List JournalWrite}
    (hnew : s.files id "live.journal" = none)
    (h : (SessionFrameParser.init.append (journalBytes ws)).1 = .ok (completeFrames ws)) :
    ReplaysComplete F s id ws := by
  have hfile := s.appendAll_journal id ws
  rw [hnew] at hfile
  unfold ReplaysComplete
  split_ifs at hfile ⊢ with hopened
  · rw [Option.getD_none, List.nil_append] at hfile
    simp only [State.replayJournal, journalPath, hfile, h]
  · simp only [State.replayJournal, journalPath, hfile]

/-- Once a part of a frame is in the file, no frame is written completely, and the parser waits
on what there is of them. -/
def TornAtEnd (torn : List UInt8) : List JournalWrite → Prop
  | [] => True
  | w :: ws =>
    if w.Complete then torn = [] ∧ TornAtEnd [] ws
    else SessionFrameParser.front (torn ++ w.bytes) = .ok none ∧ TornAtEnd (torn ++ w.bytes) ws

theorem TornAtEnd.take {torn : List UInt8} {ws : List JournalWrite} (h : TornAtEnd torn ws)
    (n : ℕ) : TornAtEnd torn (ws.take n) := by
  induction ws generalizing torn n with
  | nil =>
    rw [List.take_nil]
    trivial
  | cons w ws ih =>
    cases n with
    | zero => trivial
    | succ n =>
      rw [List.take_succ_cons]
      unfold TornAtEnd at h ⊢
      split_ifs at h ⊢
      · exact ⟨h.1, ih h.2 n⟩
      · exact ⟨h.1, ih h.2 n⟩

theorem TornAtEnd.journal {torn : List UInt8} {ws : List JournalWrite} (h : TornAtEnd torn ws)
    (hwaits : SessionFrameParser.front torn = .ok none) :
    ∃ rest, SessionFrameParser.front rest = .ok none ∧
      torn ++ journalBytes ws = written SessionFrame.bytes (completeFrames ws) ++ rest := by
  induction ws generalizing torn with
  | nil => exact ⟨torn, hwaits, by simp [journalBytes, completeFrames, written]⟩
  | cons w ws ih =>
    unfold TornAtEnd at h
    split_ifs at h with hw
    · obtain ⟨rfl, hlater⟩ := h
      obtain ⟨rest, hrest, hbytes⟩ := ih hlater rfl
      refine ⟨rest, hrest, ?_⟩
      have hframes : completeFrames (w :: ws) = w.frame :: completeFrames ws := by
        simp [completeFrames, hw]
      rw [hframes, written_cons, List.append_assoc, ← hbytes, journalBytes, List.flatMap_cons,
        JournalWrite.bytes_of_complete hw]
      rfl
    · obtain ⟨rest, hrest, hbytes⟩ := ih h.2 h.1
      refine ⟨rest, hrest, ?_⟩
      have hframes : completeFrames (w :: ws) = completeFrames ws := by
        simp [completeFrames, hw]
      rw [hframes, ← hbytes, journalBytes, List.flatMap_cons, List.append_assoc]
      rfl

theorem TornAtEnd.parsed {ws : List JournalWrite} (hframes : ∀ w ∈ ws, w.frame.WellFormed)
    (h : TornAtEnd [] ws) :
    (SessionFrameParser.init.append (journalBytes ws)).1 = .ok (completeFrames ws) := by
  obtain ⟨rest, hrest, hbytes⟩ := h.journal rfl
  have hrecognised : ∀ f ∈ completeFrames ws,
      Recognises SessionFrameParser.reader SessionFrame.bytes id f := by
    intro f hf
    obtain ⟨w, hw, rfl⟩ := List.mem_map.mp hf
    exact (hframes w (List.mem_filter.mp hw).1).recognises
  have hleading := Reader.leading_written hrecognised rest
  have hwaits : SessionFrameParser.reader.front rest = .ok none := hrest
  rw [Reader.leading_of_none hwaits, List.map_id, List.append_nil] at hleading
  change (SessionFrameParser.reader.drain ([] ++ journalBytes ws)).1 = _
  rw [hbytes, Reader.drain_of_waits (by rw [hleading]; exact hrest), hleading]

/-- Calls of which the torn ones come last leave a journal that is replayed to the complete
frames, at every point. -/
theorem torn_at_end_replays (F : Foundation) (s : State) (id : UUID) (ws : List JournalWrite)
    (hnew : s.files id "live.journal" = none) (hframes : ∀ w ∈ ws, w.frame.WellFormed)
    (h : TornAtEnd [] ws) (n : ℕ) : ReplaysComplete F s id (ws.take n) :=
  replaysComplete_of_parsed hnew
    ((h.take n).parsed fun w hw => hframes w (List.mem_of_mem_take hw))

def JournalWrite.whole (frame : SessionFrame) : JournalWrite := ⟨frame, some frame.bytes.length⟩

def tornLast : List JournalWrite :=
  [.whole (bareFrame .profileCheckpoint 1), ⟨bareFrame .profileCheckpoint 2, some 5⟩]

theorem torn_at_end_replays_tornLast :
    completeFrames tornLast = [bareFrame .profileCheckpoint 1] ∧
      ReplaysComplete oneSession State.initial 1 tornLast := by
  refine ⟨rfl, torn_at_end_replays oneSession State.initial 1 tornLast rfl ?_ ?_ 2⟩
  · intro w hw
    rcases List.mem_pair.mp hw with rfl | rfl
    · exact bareFrame_wellFormed _ _
    · exact bareFrame_wellFormed _ _
  · exact ⟨rfl, rfl, trivial⟩

def tornFirst : List JournalWrite :=
  [⟨bareFrame .profileCheckpoint 1, some 5⟩, .whole (bareFrame .profileCheckpoint 2)]

/-- The second checkpoint is in the file, and nothing is presented. -/
theorem torn_first_replays_nothing :
    completeFrames tornFirst = [bareFrame .profileCheckpoint 2] ∧
    (State.initial.appendAll 1 tornFirst).replayJournal oneSession (journalPath 1) 1 =
      .ok (none, State.initial.appendAll 1 tornFirst) ∧
    ¬ReplaysComplete oneSession State.initial 1 tornFirst := by
  have hfront : SessionFrameParser.reader.front (journalBytes tornFirst) =
      .error (.unknownFrameKind 0x5300) := rfl
  have hdrain : (SessionFrameParser.init.append (journalBytes tornFirst)).1 =
      .error (.unknownFrameKind 0x5300) :=
    congrArg Prod.fst (SessionFrameParser.reader.drain_of_error hfront)
  have hreplay : (State.initial.appendAll 1 tornFirst).replayJournal oneSession (journalPath 1) 1 =
      .ok (none, State.initial.appendAll 1 tornFirst) := by
    have hfile : (State.initial.appendAll 1 tornFirst).files 1 "live.journal" =
        some (journalBytes tornFirst) := State.initial.appendAll_journal 1 tornFirst
    simp only [State.replayJournal, journalPath, hfile, hdrain]
  refine ⟨rfl, hreplay, fun h => ?_⟩
  unfold ReplaysComplete at h
  rw [hreplay, if_pos ⟨_, List.mem_cons_self, by simp⟩] at h
  obtain ⟨runtime, -, hruntime⟩ := Fallible.bind_eq_ok.mp h.symm
  cases hruntime

theorem journalBytes_whole (frames : List SessionFrame) :
    journalBytes (frames.map .whole) = written SessionFrame.bytes frames := by
  unfold journalBytes written
  rw [List.flatMap_map]
  congr 1
  funext frame
  exact List.take_length

theorem completeFrames_whole (frames : List SessionFrame) :
    completeFrames (frames.map .whole) = frames := by
  induction frames with
  | nil => rfl
  | cons frame frames ih =>
    have hw : (JournalWrite.whole frame).Complete := Nat.le_refl _
    rw [List.map_cons, completeFrames, List.filter_cons_of_pos (by simpa using hw), List.map_cons]
    exact congrArg _ ih

/-- Every frame that did not get to the file completely did not get there at all. -/
def NothingTorn (ws : List JournalWrite) : Prop := ∀ w ∈ ws, w.Complete ∨ w.bytes = []

theorem journalBytes_of_nothingTorn {ws : List JournalWrite} (h : NothingTorn ws) :
    journalBytes ws = written SessionFrame.bytes (completeFrames ws) := by
  induction ws with
  | nil => rfl
  | cons w ws ih =>
    obtain ⟨hw, hws⟩ := List.forall_mem_cons.mp h
    have hrest := ih hws
    unfold journalBytes completeFrames at hrest ⊢
    rw [List.flatMap_cons, hrest]
    by_cases hcomplete : w.Complete
    · rw [List.filter_cons_of_pos (by simpa using hcomplete), List.map_cons, written_cons,
        JournalWrite.bytes_of_complete hcomplete]
    · rw [List.filter_cons_of_neg (by simpa using hcomplete), hw.resolve_left hcomplete]
      rfl

theorem length_lt_of_torn {ws : List JournalWrite} (h : ¬NothingTorn ws) :
    (written SessionFrame.bytes (completeFrames ws)).length < (journalBytes ws).length := by
  induction ws with
  | nil => exact absurd (fun _ hw => nomatch hw) h
  | cons w ws ih =>
    have hle : (written SessionFrame.bytes (completeFrames ws)).length ≤
        (journalBytes ws).length := by
      by_cases hws : NothingTorn ws
      · rw [journalBytes_of_nothingTorn hws]
      · exact Nat.le_of_lt (ih hws)
    unfold journalBytes completeFrames at ih hle ⊢
    rw [List.flatMap_cons, List.length_append]
    by_cases hcomplete : w.Complete
    · have hlt := ih fun hws => h (List.forall_mem_cons.mpr ⟨.inl hcomplete, hws⟩)
      rw [List.filter_cons_of_pos (by simpa using hcomplete), List.map_cons, written_cons,
        List.length_append, JournalWrite.bytes_of_complete hcomplete]
      omega
    · rw [List.filter_cons_of_neg (by simpa using hcomplete)]
      by_cases hbytes : w.bytes = []
      · have hlt := ih fun hws => h (List.forall_mem_cons.mpr ⟨.inr hbytes, hws⟩)
        omega
      · have hpos := List.length_pos_iff.mpr hbytes
        omega

def lonelyDelta : SessionFrame := bareFrame .profileDelta 0

theorem front_shifted {shift : ℕ} (hpos : 0 < shift) (hlt : shift < 28) :
    SessionFrameParser.front (lonelyDelta.bytes.drop shift ++ lonelyDelta.bytes) =
      .error .invalidMagic := by
  have hlength : SessionFrameHeader.encodedLength = 28 := rfl
  have hbytes : lonelyDelta.bytes.length = 28 := rfl
  have hmagic : ∀ k : Fin 28, k.val = 0 ∨
      subdata ((lonelyDelta.bytes.drop k ++ lonelyDelta.bytes).take 28) 0 4 ≠ [80, 80, 82, 83] := by
    decide
  rw [SessionFrameParser.front_eq_error_iff, List.length_append, hbytes, hlength]
  refine ⟨by omega, ?_⟩
  unfold SessionFrameHeader.decoding
  rw [if_neg, if_pos ((hmagic ⟨shift, hlt⟩).resolve_left (by dsimp only; omega))]
  · rfl
  · rw [List.length_take, List.length_append, hbytes, hlength]
    omega

/-- Bytes that the parser waits on swallow the beginning of the next frames. -/
theorem waiting_bytes_swallow {rest : List UInt8} (hne : rest ≠ [])
    (hwaits : SessionFrameParser.reader.front rest = .ok none) :
    (SessionFrameParser.reader.leading
      (rest ++ written SessionFrame.bytes [lonelyDelta, lonelyDelta])).1 ≠
        [lonelyDelta, lonelyDelta] := by
  intro h
  cases hfront : SessionFrameParser.reader.front
      (rest ++ written SessionFrame.bytes [lonelyDelta, lonelyDelta]) with
  | error e =>
    rw [Reader.leading_of_error hfront] at h
    cases h
  | ok found =>
    cases found with
    | none =>
      rw [Reader.leading_of_none hfront] at h
      cases h
    | some found =>
      obtain ⟨frame, size⟩ := found
      rw [Reader.leading_of_some hfront] at h
      obtain ⟨hframe, hnext⟩ := List.cons.inj h
      obtain ⟨header, -, hsize, -, hfound⟩ :=
        (SessionFrameParser.front_eq_some_iff _ frame size).mp hfront
      have hheader : header = lonelyDelta.header := by
        rw [← hframe, hfound]
      have hsize28 : size = 28 := by
        rw [hsize, hheader]
        rfl
      subst hsize28
      -- The first frame starts in the waiting bytes, so the second would start inside a delta.
      have hshort : ¬28 ≤ rest.length := by
        intro hle
        rw [SessionFrameParser.peeks.found_of_append hfront hle] at hwaits
        cases hwaits
      have hpos := List.length_pos_iff.mpr hne
      have hbytes : lonelyDelta.bytes.length = 28 := rfl
      have hdrop : (rest ++ written SessionFrame.bytes [lonelyDelta, lonelyDelta]).drop 28 =
          lonelyDelta.bytes.drop (28 - rest.length) ++ lonelyDelta.bytes := by
        rw [written_cons, written_singleton, List.drop_append, List.drop_of_length_le (by omega),
          List.nil_append, List.drop_append_of_le_length (by omega)]
      have hshifted := front_shifted (by omega : 0 < 28 - rest.length) (by omega)
      have herror : SessionFrameParser.reader.front ((rest ++ written SessionFrame.bytes
          [lonelyDelta, lonelyDelta]).drop 28) = .error .invalidMagic := by
        rw [hdrop]
        exact hshifted
      rw [Reader.leading_of_error herror] at hnext
      cases hnext

/-- The journal is parsed to its complete frames whatever is written completely from then on. -/
def AlwaysParsed (ws : List JournalWrite) : Prop :=
  ∀ later : List SessionFrame, (∀ f ∈ later, f.WellFormed) →
    (SessionFrameParser.init.append (journalBytes (ws ++ later.map .whole))).1 =
      .ok (completeFrames (ws ++ later.map .whole))

/-- A part of a frame that stays in the file loses what comes behind it. -/
theorem always_parsed_iff {ws : List JournalWrite} (hframes : ∀ w ∈ ws, w.frame.WellFormed) :
    AlwaysParsed ws ↔ NothingTorn ws := by
  have hbytes (later : List SessionFrame) : journalBytes (ws ++ later.map .whole) =
      journalBytes ws ++ written SessionFrame.bytes later := by
    rw [← journalBytes_whole]
    exact List.flatMap_append
  have hcomplete (later : List SessionFrame) : completeFrames (ws ++ later.map .whole) =
      completeFrames ws ++ later := by
    have hlater := completeFrames_whole later
    unfold completeFrames at hlater ⊢
    rw [List.filter_append, List.map_append, hlater]
  constructor
  · intro h
    by_contra htorn
    have hparsed (later : List SessionFrame) (hlater : ∀ f ∈ later, f.WellFormed) :
        (SessionFrameParser.reader.leading
            (journalBytes ws ++ written SessionFrame.bytes later)).1 = completeFrames ws ++ later ∧
          SessionFrameParser.reader.front (SessionFrameParser.reader.leading
            (journalBytes ws ++ written SessionFrame.bytes later)).2 = .ok none := by
      have hall := h later hlater
      rw [hbytes, hcomplete] at hall
      change (SessionFrameParser.reader.drain
        (journalBytes ws ++ written SessionFrame.bytes later)).1 = _ at hall
      rcases Reader.front_leading SessionFrameParser.reader
        (journalBytes ws ++ written SessionFrame.bytes later) with hwaits | hrefuses
      · rw [Reader.drain_of_waits hwaits] at hall
        exact ⟨Except.ok.inj hall, hwaits⟩
      · obtain ⟨e, rest, hdrain⟩ := Reader.drain_of_refuses hrefuses
        rw [hdrain] at hall
        cases hall
    obtain ⟨hnow, hwaits⟩ := hparsed [] fun _ hf => nomatch hf
    have hnone : written SessionFrame.bytes [] = [] := rfl
    rw [hnone, List.append_nil, List.append_nil] at hnow
    rw [hnone, List.append_nil] at hwaits
    have hrest : (SessionFrameParser.reader.leading (journalBytes ws)).2 ≠ [] := by
      intro hnil
      have hlength := SessionFrameParser.length_leading (journalBytes ws)
      have hlt := length_lt_of_torn htorn
      rw [hnow, hnil] at hlength
      exact absurd hlength (Nat.ne_of_gt hlt)
    have hlater := (hparsed [lonelyDelta, lonelyDelta] fun f hf => by
      rw [List.eq_of_mem_replicate (n := 2) hf]
      exact bareFrame_wellFormed _ _).1
    rw [SessionFrameParser.peeks.leading_append, hnow] at hlater
    exact waiting_bytes_swallow hrest hwaits (List.append_cancel_left hlater)
  · intro h later hlater
    have hall : ∀ f ∈ completeFrames ws ++ later, f.WellFormed := by
      intro f hf
      rcases List.mem_append.mp hf with hf | hf
      · obtain ⟨w, hw, rfl⟩ := List.mem_map.mp hf
        exact hframes w (List.mem_filter.mp hw).1
      · exact hlater f hf
    rw [hbytes, hcomplete, journalBytes_of_nothingTorn h, ← written_append]
    exact SessionFrameParser.append_bytes hall

end PProfessor.Coordinator
