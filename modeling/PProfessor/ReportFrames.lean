import PProfessor.ReportOrder
import PProfessor.TextEscape

set_option autoImplicit false

/-!
# The frame tables of a report

`render_frames` of `src/report.rs` with its helpers, and when the rows of a Markdown
table are well formed: each one line of six cells, where a cell ends at a pipe that no
odd run of backslashes precedes.
-/
namespace PProfessor.Report
open KeyedSum Ranking Text

inductive FrameOrder where
  | flat
  | cumulative
  deriving DecidableEq, Repr

/-- The value that a table is ordered by. -/
def FrameOrder.value : FrameOrder → FrameStat → Int64
  | .flat, frame => frame.flat
  | .cumulative, frame => frame.cumulative

/-- The comparison of `frames.sort_by`. -/
def compareCumulative (a b : FrameStat) : Ordering :=
  (compare (saturatingAbsI64 b.cumulative) (saturatingAbsI64 a.cumulative)).then
    ((compare (saturatingAbsI64 b.flat) (saturatingAbsI64 a.flat)).then
      (compare a.function b.function))

def sourceLocation (frame : FrameStat) : String :=
  if frame.file.isEmpty then ""
  else if frame.line = 0 then frame.file
  else frame.file ++ ":" ++ toString frame.line.toInt

def markdownCode (value : String) : String :=
  if '`' ∈ value.toList then "`` " ++ value ++ " ``" else "`" ++ value ++ "`"

def markdownCell (value : String) : String :=
  String.ofList (replaceChar '\n' [' ']
    (replaceChar '|' ['\\', '|'] (replaceChar '\\' ['\\', '\\'] value.toList)))

def padRight (width : ℕ) (text : String) : String :=
  String.ofList (List.rightpad width ' ' text.toList)

def padLeft (width : ℕ) (text : String) : String :=
  String.ofList (List.leftpad width ' ' text.toList)

section Render

variable {F : Type} (floats : Floats F)

/-- `hotness_bar`; `filled` clamps, scales and rounds the percentage. -/
def hotnessBar (filled : F → ℕ → ℕ) (percentage : F) (width : ℕ) : String :=
  String.ofList (List.replicate (filled percentage width) '█' ++
    List.replicate (width - filled percentage width) ' ')

variable (report : ProfileReport)

/-- The frames in the order of the table that reach the threshold, up to the limit. -/
def shownFrames (options : RenderOptions F) (order : FrameOrder) : List FrameStat :=
  let frames := match order with
    | .flat => report.topFrames
    | .cumulative => rank compareCumulative report.topFrames
  (frames.filter fun frame => floats.le options.minPercent
    (percent floats (order.value frame) report.totalValue)).take options.limit

def markdownCells (frame : FrameStat) : List String :=
  [formatValue floats frame.flat report.sampleUnit,
    floats.fixed2 (percent floats frame.flat report.totalValue) ++ "%",
    formatValue floats frame.cumulative report.sampleUnit,
    floats.fixed2 (percent floats frame.cumulative report.totalValue) ++ "%",
    markdownCode frame.function,
    markdownCell (sourceLocation frame)]

def markdownRow (frame : FrameStat) : String :=
  "| " ++ formatValue floats frame.flat report.sampleUnit ++
  " | " ++ floats.fixed2 (percent floats frame.flat report.totalValue) ++
  "% | " ++ formatValue floats frame.cumulative report.sampleUnit ++
  " | " ++ floats.fixed2 (percent floats frame.cumulative report.totalValue) ++
  "% | " ++ markdownCode frame.function ++
  " | " ++ markdownCell (sourceLocation frame) ++ " |\n"

def terminalRow (filled : F → ℕ → ℕ) (order : FrameOrder) (frame : FrameStat) : String :=
  padRight 20 (hotnessBar filled (percent floats (order.value frame) report.totalValue) 20) ++
  " " ++ padLeft 9 (formatValue floats frame.flat report.sampleUnit) ++
  " " ++ padLeft 7 (floats.fixed2 (percent floats frame.flat report.totalValue)) ++
  "% " ++ padLeft 9 (formatValue floats frame.cumulative report.sampleUnit) ++
  " " ++ padLeft 7 (floats.fixed2 (percent floats frame.cumulative report.totalValue)) ++
  "%  " ++ frame.function ++ "  " ++ sourceLocation frame ++ "\n"

def markdownHeader : String :=
  "| Flat | Flat % | Cumulative | Cumulative % | Function | Source |\n" ++
  "| ---: | ---: | ---: | ---: | --- | --- |\n"

def terminalHeader : String :=
  "HOT                       FLAT     FLAT%       CUM      CUM%  FUNCTION  SOURCE\n"

def renderFrames (filled : F → ℕ → ℕ) (options : RenderOptions F) (format : ReportFormat)
    (order : FrameOrder) : String :=
  let frames := shownFrames floats report options order
  match format with
  | .markdown => frames.foldl (fun output frame => output ++ markdownRow floats report frame)
      markdownHeader
  | .terminal => frames.foldl (fun output frame =>
      output ++ terminalRow floats report filled order frame) terminalHeader

/-- The data rows of a Markdown table. -/
def frameRows (options : RenderOptions F) (order : FrameOrder) : List String :=
  (shownFrames floats report options order).map (markdownRow floats report)

theorem renderFrames_markdown (filled : F → ℕ → ℕ) (options : RenderOptions F)
    (order : FrameOrder) : renderFrames floats report filled options .markdown order =
      markdownHeader ++ String.join (frameRows floats report options order) := by
  have hfold (frames : List FrameStat) (output : String) :
      frames.foldl (fun output frame => output ++ markdownRow floats report frame) output =
        output ++ String.join (frames.map (markdownRow floats report)) := by
    induction frames generalizing output with
    | nil => simp
    | cons frame rest ih =>
      rw [List.foldl_cons, ih, List.map_cons, String.join_cons, String.append_assoc]
  exact hfold _ _

end Render

/-- One line, in which no pipe ends the cell. -/
structure Clean (text : String) : Prop where
  newline : '\n' ∉ text.toList
  carriageReturn : '\r' ∉ text.toList
  pipes : unescaped '|' '\\' text.toList = 0

def Bare (text : String) : Prop := ∀ c ∈ text.toList, c ≠ '\n' ∧ c ≠ '\r' ∧ c ≠ '|'

instance (text : String) : Decidable (Bare text) :=
  List.decidableBAll _ _

/-- What numbers are written with, `NaN` and `inf` included. -/
def NumberText (text : String) : Prop := ∀ c ∈ text.toList, c.isAlphanum ∨ c = '.' ∨ c = '-'

theorem Bare.append {a b : String} (ha : Bare a) (hb : Bare b) : Bare (a ++ b) := by
  intro c hc
  rw [String.toList_append, List.mem_append] at hc
  exact hc.elim (ha c) (hb c)

theorem Bare.clean {text : String} (h : Bare text) : Clean text where
  newline hc := (h _ hc).1 rfl
  carriageReturn hc := (h _ hc).2.1 rfl
  pipes := unescaped_eq_zero fun hc => (h _ hc).2.2 rfl

theorem NumberText.bare {text : String} (h : NumberText text) : Bare text := by
  intro c hc
  refine ⟨?_, ?_, ?_⟩
  all_goals
    rintro rfl
    have hnumber := h _ hc
    revert hnumber
    decide

theorem numberText_nat (n : ℕ) : NumberText (toString n) := by
  intro c hc
  have hdigit : c.isDigit := Nat.isDigit_of_mem_toDigits (by decide) (by decide)
    (show c ∈ Nat.toDigits 10 n by simpa using hc)
  simp [Char.isAlphanum, hdigit]

theorem numberText_int (n : ℤ) : NumberText (toString n) := by
  cases n with
  | ofNat n => exact numberText_nat n
  | negSucc n =>
    intro c hc
    have hc : c ∈ ("-" ++ toString (n + 1)).toList := hc
    rw [String.toList_append, List.mem_append] at hc
    obtain hc | hc := hc
    · exact .inr (.inr (List.mem_singleton.mp hc))
    · exact numberText_nat _ c hc

theorem clean_congr {a b : String} (hnewline : '\n' ∈ a.toList ↔ '\n' ∈ b.toList)
    (hreturn : '\r' ∈ a.toList ↔ '\r' ∈ b.toList)
    (hpipes : unescaped '|' '\\' a.toList = unescaped '|' '\\' b.toList) : Clean a ↔ Clean b := by
  constructor
  · intro h
    exact ⟨fun hm => h.newline (hnewline.mpr hm), fun hm => h.carriageReturn (hreturn.mpr hm),
      hpipes ▸ h.pipes⟩
  · intro h
    exact ⟨fun hm => h.newline (hnewline.mp hm), fun hm => h.carriageReturn (hreturn.mp hm),
      hpipes.trans h.pipes⟩

theorem clean_enclosed_iff {opening closing : String} (start : List Char) {last : Char}
    (hopening : opening.toList = start ++ [last]) (hlast : last ≠ '\\') (ho : Bare opening)
    (hc : Bare closing) (text : String) :
    Clean (opening ++ text ++ closing) ↔ Clean text := by
  have hlist : (opening ++ text ++ closing).toList =
      start ++ [last] ++ text.toList ++ closing.toList := by
    rw [String.toList_append, String.toList_append, hopening]
  have hmem (c : Char) (h₁ : c ∉ opening.toList) (h₂ : c ∉ closing.toList) :
      c ∈ (opening ++ text ++ closing).toList ↔ c ∈ text.toList := by
    simp [String.toList_append, h₁, h₂]
  apply clean_congr
  · exact hmem '\n' (fun h => (ho _ h).1 rfl) (fun h => (hc _ h).1 rfl)
  · exact hmem '\r' (fun h => (ho _ h).2.1 rfl) (fun h => (hc _ h).2.1 rfl)
  · rw [hlist]
    apply unescaped_enclosed hlast
    · rw [← hopening]
      exact fun h => (ho _ h).2.2 rfl
    · exact fun h => (hc _ h).2.2 rfl

theorem toLower_eq_iff {c d : Char} (hd : ¬('A' ≤ d ∧ d ≤ 'Z')) (hd' : ¬('a' ≤ d ∧ d ≤ 'z')) :
    c.toLower = d ↔ c = d := by
  unfold Char.toLower
  split_ifs with hc
  · constructor
    · rintro rfl
      exfalso
      apply hd'
      rw [ge_iff_le, UInt32.le_iff_toNat_le, UInt32.le_iff_toNat_le] at hc
      rw [Char.le_def, Char.le_def, UInt32.le_iff_toNat_le, UInt32.le_iff_toNat_le,
        UInt32.toNat_add]
      simp only [Char.reduceVal, UInt32.reduceToNat, UInt32.reduceSub] at hc ⊢
      omega
    · rintro rfl
      exact absurd hc hd
  · rfl

theorem clean_toLower_iff (text : String) : Clean text.toLower ↔ Clean text := by
  have hlist : text.toLower.toList = text.toList.map Char.toLower := String.toList_map
  have hmem (d : Char) (h₁ : ¬('A' ≤ d ∧ d ≤ 'Z')) (h₂ : ¬('a' ≤ d ∧ d ≤ 'z')) :
      d ∈ text.toLower.toList ↔ d ∈ text.toList := by
    rw [hlist, List.mem_map]
    simp only [toLower_eq_iff h₁ h₂, exists_eq_right]
  apply clean_congr (hmem '\n' (by decide) (by decide)) (hmem '\r' (by decide) (by decide))
  rw [hlist]
  exact unescaped_map (fun c => toLower_eq_iff (by decide) (by decide))
    (fun c => toLower_eq_iff (by decide) (by decide)) _

section Cells

variable {F : Type} {floats : Floats F}

theorem clean_markdownCode_iff (value : String) : Clean (markdownCode value) ↔ Clean value := by
  unfold markdownCode
  split_ifs with h
  · exact clean_enclosed_iff ['`', '`'] rfl (by decide) (by decide) (by decide) value
  · exact clean_enclosed_iff [] rfl (by decide) (by decide) (by decide) value

theorem clean_markdownCell_iff (value : String) :
    Clean (markdownCell value) ↔ '\r' ∉ value.toList := by
  have hlist : (markdownCell value).toList =
      replaceChar '\n' [' '] (escapeMarks '|' '\\' value.toList) := String.toList_ofList
  have hnewline : '\n' ∉ (markdownCell value).toList := by
    rw [hlist, mem_replaceChar]
    simp
  have hreturn : '\r' ∈ (markdownCell value).toList ↔ '\r' ∈ value.toList := by
    rw [hlist, escapeMarks]
    simp only [mem_replaceChar]
    simp
  have hpipes : unescaped '|' '\\' (markdownCell value).toList = 0 := by
    rw [hlist, replaceChar_singleton, unescaped_map]
    · exact unescaped_escapeMarks (by decide) value.toList
    · intro c
      split_ifs with hc <;> simp [hc]
    · intro c
      split_ifs with hc <;> simp [hc]
  rw [← hreturn]
  exact ⟨Clean.carriageReturn, fun h => ⟨hnewline, h, hpipes⟩⟩

theorem return_mem_sourceLocation_iff (frame : FrameStat) :
    '\r' ∈ (sourceLocation frame).toList ↔ '\r' ∈ frame.file.toList := by
  unfold sourceLocation
  split_ifs with hfile hline
  · rw [String.isEmpty_iff] at hfile
    rw [hfile]
  · rfl
  · have hnumber := (numberText_int frame.line.toInt).bare
    have hnone : '\r' ∉ (":" ++ toString frame.line.toInt).toList := by
      intro h
      rw [String.toList_append, List.mem_append] at h
      obtain h | h := h
      · revert h
        decide
      · exact (hnumber _ h).2.1 rfl
    rw [String.append_assoc, String.toList_append, List.mem_append]
    exact or_iff_left hnone

/-- Values are written with the unit of the report, which nothing escapes. -/
theorem clean_formatValue_iff (hfixed : ∀ x, NumberText (floats.fixed2 x)) (value : Int64)
    (unit : String) : Clean (formatValue floats value unit) ↔ Clean unit := by
  have hplain := (numberText_int value.toInt).bare
  have hscaled (divisor : ℕ) (suffix : String) (hsuffix : Bare suffix) :
      Bare (floats.fixed2 (floats.quotient value divisor) ++ suffix) :=
    (hfixed _).bare.append hsuffix
  have hknown (known : List String) (hall : ∀ name ∈ known, Bare name) (hmem : unit.toLower ∈ known)
      {text : String} (htext : Bare text) : Clean text ↔ Clean unit.toLower :=
    iff_of_true htext.clean (hall _ hmem).clean
  rw [← clean_toLower_iff unit]
  unfold formatValue
  dsimp only
  by_cases htime : unit.toLower ∈ ["nanoseconds", "nanosecond", "ns"]
  · rw [if_pos htime]
    apply hknown _ (by decide) htime
    split_ifs
    · exact hscaled _ _ (by decide)
    · exact hscaled _ _ (by decide)
    · exact hscaled _ _ (by decide)
    · exact hplain.append (by decide)
  · rw [if_neg htime]
    by_cases hbytes : unit.toLower ∈ ["bytes", "byte"]
    · rw [if_pos hbytes]
      apply hknown _ (by decide) hbytes
      split_ifs
      · exact hscaled _ _ (by decide)
      · exact hscaled _ _ (by decide)
      · exact hscaled _ _ (by decide)
      · exact hplain.append (by decide)
    · rw [if_neg hbytes]
      by_cases hcount : unit.toLower ∈ ["", "count", "samples", "objects"]
      · rw [if_pos hcount]
        exact hknown _ (by decide) hcount hplain
      · rw [if_neg hcount]
        have hopening : (toString value.toInt ++ " ").toList =
            (toString value.toInt).toList ++ [' '] := String.toList_append
        have h := clean_enclosed_iff _ hopening (by decide) (hplain.append (by decide))
          (show Bare "" by decide) unit.toLower
        rwa [String.append_empty] at h

end Cells

/-- One line of six cells. -/
def WellFormedRow (text : String) : Prop :=
  ∃ line : String, text = line ++ "\n" ∧ '\n' ∉ line.toList ∧ '\r' ∉ line.toList ∧
    unescaped '|' '\\' line.toList = 7

section Rows

variable {F : Type} {floats : Floats F}

theorem markdownRow_toList (floats : Floats F) (report : ProfileReport) (frame : FrameStat) :
    (markdownRow floats report frame).toList =
      row '|' ' ' ((markdownCells floats report frame).map String.toList) ++ ['\n'] := by
  have hopening : "| ".toList = ['|', ' '] := rfl
  have hbetween : " | ".toList = [' ', '|', ' '] := rfl
  have hpercent : "% | ".toList = "%".toList ++ [' ', '|', ' '] := rfl
  have hclosing : " |\n".toList = [' ', '|', '\n'] := rfl
  delta markdownRow
  simp only [markdownCells, row, String.toList_append, hopening, hbetween, hpercent, hclosing,
    List.map_cons, List.map_nil, List.flatMap_cons, List.flatMap_nil, List.append_assoc,
    List.cons_append, List.nil_append]

theorem wellFormedRow_iff_cells (report : ProfileReport) (frame : FrameStat) :
    WellFormedRow (markdownRow floats report frame) ↔
      ∀ cell ∈ markdownCells floats report frame, Clean cell := by
  have hlist := markdownRow_toList floats report frame
  have hlength : 1 + ((markdownCells floats report frame).map String.toList).length = 7 := rfl
  generalize markdownCells floats report frame = cells at hlist hlength ⊢
  have hpipes := unescaped_row_iff (show ' ' ≠ '\\' by decide) (show ' ' ≠ '|' by decide)
    (cells.map String.toList)
  have hmem (c : Char) (hm : c ≠ '|') (hb : c ≠ ' ') :
      c ∉ row '|' ' ' (cells.map String.toList) ↔ ∀ cell ∈ cells, c ∉ cell.toList := by
    rw [mem_row_iff hm hb]
    simp
  rw [hlength, List.forall_mem_map] at hpipes
  constructor
  · rintro ⟨line, hline, hnewline, hreturn, hseven⟩
    have hrow : row '|' ' ' (cells.map String.toList) = line.toList := by
      have happend := hlist.symm.trans (congrArg String.toList hline)
      rw [String.toList_append] at happend
      exact List.append_cancel_right happend
    rw [← hrow] at hnewline hreturn hseven
    intro cell hcell
    exact ⟨(hmem '\n' (by decide) (by decide)).mp hnewline cell hcell,
      (hmem '\r' (by decide) (by decide)).mp hreturn cell hcell, hpipes.mp hseven cell hcell⟩
  · intro h
    refine ⟨String.ofList (row '|' ' ' (cells.map String.toList)), ?_, ?_⟩
    · rw [← String.toList_inj, hlist, String.toList_append, String.toList_ofList]
      rfl
    · rw [String.toList_ofList]
      exact ⟨(hmem '\n' (by decide) (by decide)).mpr fun cell hcell => (h cell hcell).newline,
        (hmem '\r' (by decide) (by decide)).mpr fun cell hcell => (h cell hcell).carriageReturn,
        hpipes.mpr fun cell hcell => (h cell hcell).pipes⟩

theorem wellFormedRow_iff (hfixed : ∀ x, NumberText (floats.fixed2 x)) (report : ProfileReport)
    (frame : FrameStat) : WellFormedRow (markdownRow floats report frame) ↔
      Clean report.sampleUnit ∧ Clean frame.function ∧ '\r' ∉ frame.file.toList := by
  have hpercent (x : F) : Clean (floats.fixed2 x ++ "%") :=
    ((hfixed x).bare.append (by decide)).clean
  rw [wellFormedRow_iff_cells]
  simp only [markdownCells, List.forall_mem_cons, clean_formatValue_iff hfixed, hpercent,
    clean_markdownCode_iff, clean_markdownCell_iff, return_mem_sourceLocation_iff, true_and]
  tauto

/-- The rows of a Markdown table are well formed if and only if the unit and the functions of
the frames that it shows are clean and no file has a carriage return. -/
theorem renderFrames_wellFormed_iff (hfixed : ∀ x, NumberText (floats.fixed2 x))
    (report : ProfileReport) (filled : F → ℕ → ℕ) (options : RenderOptions F) (order : FrameOrder) :
    renderFrames floats report filled options .markdown order =
        markdownHeader ++ String.join (frameRows floats report options order) ∧
      ((∀ row ∈ frameRows floats report options order, WellFormedRow row) ↔
        ∀ frame ∈ shownFrames floats report options order,
          Clean report.sampleUnit ∧ Clean frame.function ∧ '\r' ∉ frame.file.toList) := by
  refine ⟨renderFrames_markdown floats report filled options order, ?_⟩
  rw [frameRows, List.forall_mem_map]
  simp only [wellFormedRow_iff hfixed]

theorem hundredths_numberText (x : ℕ) : NumberText (hundredths.fixed2 x) := by
  intro c hc
  have hc :
      c ∈ (toString (x / 100) ++ "." ++ toString (x % 100 / 10) ++ toString (x % 10)).toList := hc
  simp only [String.toList_append, List.mem_append] at hc
  obtain ((hc | hc) | hc) | hc := hc
  · exact numberText_nat _ c hc
  · exact .inr (.inl (List.mem_singleton.mp hc))
  · exact numberText_nat _ c hc
  · exact numberText_nat _ c hc

def escapedSource : ProfileReport where
  sampleType := "cpu"
  sampleUnit := "nanoseconds"
  availableSampleTypes := ["cpu"]
  durationNanos := 0
  sampleRecords := 1
  totalValue := 5
  topFrames := [⟨"step`", "C:\\a|b.rs", 10, 5, 5⟩]
  topStacks := [⟨[⟨"step`", "C:\\a|b.rs", 10⟩], 5⟩]

theorem renderFrames_wellFormed_iff_escapedSource :
    frameRows hundredths escapedSource ⟨.markdown, 20, 0⟩ .flat =
        ["| 5ns | 100.00% | 5ns | 100.00% | `` step` `` | C:\\\\a\\|b.rs:10 |\n"] ∧
      ∀ row ∈ frameRows hundredths escapedSource ⟨.markdown, 20, 0⟩ .flat, WellFormedRow row := by
  refine ⟨by decide +kernel, ?_⟩
  apply (renderFrames_wellFormed_iff hundredths_numberText escapedSource (fun _ _ => 0)
    ⟨.markdown, 20, 0⟩ .flat).2.mpr
  have hshown : shownFrames hundredths escapedSource ⟨.markdown, 20, 0⟩ .flat =
      escapedSource.topFrames := rfl
  rw [hshown]
  intro frame hframe
  rw [List.mem_singleton.mp hframe]
  exact ⟨Bare.clean (by decide), Bare.clean (by decide), by decide⟩

def operator : Pprof.PprofProfile :=
  { Pprof.PprofProfile.withStrings
      (.ofStrings ["", "cpu", "nanoseconds", "operator|", "ops.cpp"]) with
    valueTypes := [⟨1, 2⟩]
    functions := [⟨1, 3, 3, 4, 0⟩]
    locations := [⟨1, 0, 0x1000, [⟨1, 10, 0⟩], false⟩]
    samples := [⟨[1], [5], []⟩] }

theorem weighted_operator : weighted operator 0 = [([.function 1], 5)] := rfl

theorem operator_row_split : ∃ frameOrder stackOrder report,
    Enumerates frameOrder (aggregate operator 0).stats ∧
      Enumerates stackOrder (aggregate operator 0).stackStats ∧
      fromProfile operator none frameOrder stackOrder = .ok report ∧
      ∃ row ∈ frameRows hundredths report ⟨.markdown, 20, 0⟩ .flat, ¬WellFormedRow row := by
  obtain ⟨frameOrder, hframes⟩ := Enumerates.exists_order (aggregate operator 0).stats
  obtain ⟨stackOrder, hstacks⟩ := Enumerates.exists_order (aggregate operator 0).stackStats
  have hunique : UniqueIds operator := ⟨by decide, by decide⟩
  obtain ⟨report, hok, h⟩ := exists_attributed hunique
    (show sampleIndexOf operator none = .ok 0 from rfl) (by rw [weighted_operator]; decide)
    hframes hstacks
  obtain ⟨ids, hnodup, hids, hrows⟩ := h.topFrames
  have hone : ids = [.function 1] := by
    rw [← List.perm_singleton]
    apply (List.perm_ext_iff_of_nodup hnodup (List.nodup_singleton _)).mpr
    intro id
    rw [hids, weighted_operator]
    simp
  rw [hone, List.forall₂_cons_left_iff] at hrows
  obtain ⟨frame, frames, hrow, -, htop⟩ := hrows
  have hfunction : frame.function = "operator|" := congrArg Prod.fst hrow.names
  have hshown : frame ∈ shownFrames hundredths report ⟨.markdown, 20, 0⟩ .flat := by
    have hall (x : ℕ) : hundredths.le 0 x = true := decide_eq_true (Nat.zero_le x)
    simp only [shownFrames, htop, List.filter_cons, hall, if_true, List.take_succ_cons]
    exact List.mem_cons_self
  refine ⟨frameOrder, stackOrder, report, hframes, hstacks, hok, _,
    List.mem_map_of_mem hshown, ?_⟩
  rw [wellFormedRow_iff hundredths_numberText]
  rintro ⟨-, hclean, -⟩
  have hpipes := hclean.pipes
  rw [hfunction] at hpipes
  revert hpipes
  decide

end Rows

end PProfessor.Report
