import PProfessor.Fallible
import PProfessor.HeapRelocation
import PProfessor.KitConverter
import PProfessor.ReaderAgreement
import PProfessor.Report

set_option autoImplicit false

/-!
# The same stack in the report and in the app

`resolve_stack` reverses the lines of a location, which are leaf first; the walk
of `convertProfile` takes them as they come. The two agree on a sample exactly
where that makes no difference to the names.
-/
namespace PProfessor.StackAgreement
open Fallible Kit NumberedTable Pprof Report
open Heap (indexBy indexBy_getElem?)

/-- Unique ids, and lines whose functions are known. -/
structure WellLinked (p : PprofProfile) : Prop where
  locationIds : (p.locations.map Location.id).Nodup
  functionIds : (p.functions.map Function.id).Nodup
  lines : ∀ l ∈ p.locations, l.lines ≠ [] ∧
    ∀ line ∈ l.lines, line.functionId ∈ p.functions.map Function.id

def lineName (p : PprofProfile) (line : Line) : String :=
  ((lookup Function.id p.functions line.functionId).map fun f => profileString p f.name).getD ""

def locationNames (p : PprofProfile) (id : UInt64) : List String :=
  ((lookup Location.id p.locations id).map fun l => l.lines.map (lineName p)).getD []

/-- The root-to-leaf names of `resolve_stack`. -/
def reportNames (p : PprofProfile) (s : Sample) : List String :=
  (resolveStack p (indexBy Location.id p.locations) (indexBy Function.id p.functions) s).map
    ResolvedFrame.function

/-- The string indexes of a function are `Int`s. -/
def IndexesFit (f : Pprof.Function) : Prop :=
  f.name.toNat < 2 ^ 63 ∧ f.systemName.toNat < 2 ^ 63 ∧ f.filename.toNat < 2 ^ 63

/-- Every line of the location has a function whose string indexes are `Int`s. -/
def LinesFit (p : PprofProfile) (lines : List Line) : Prop :=
  ∀ line ∈ lines, ∀ f, lookup Function.id p.functions line.functionId = some f → IndexesFit f

variable {p : PprofProfile} {d : DecodedProfile}

theorem WellLinked.lookup_function (h : WellLinked p) {l : Location} (hl : l ∈ p.locations)
    {line : Line} (hline : line ∈ l.lines) :
    ∃ f, lookup Function.id p.functions line.functionId = some f := by
  obtain ⟨f, hf, hid⟩ := List.mem_map.mp ((h.lines l hl).2 line hline)
  cases hfind : lookup Function.id p.functions line.functionId with
  | none =>
    unfold lookup at hfind
    rw [List.find?_eq_none] at hfind
    exact absurd hid (by simpa using hfind f hf)
  | some f => exact ⟨f, rfl⟩

theorem resolveLocation_names (h : WellLinked p) (id : UInt64) :
    (resolveLocation p (indexBy Location.id p.locations) (indexBy Function.id p.functions) id).map
      ResolvedFrame.function = (locationNames p id).reverse := by
  have hfind : (indexBy Location.id p.locations)[id]? = lookup Location.id p.locations id :=
    indexBy_getElem? Location.id p.locations h.locationIds id
  unfold resolveLocation locationNames
  rw [hfind]
  cases hl : lookup Location.id p.locations id with
  | none => rfl
  | some l =>
    have hmem := (lookup_eq_some Location.id hl).1
    have hline (lines : List Line) (hlines : ∀ line ∈ lines, line ∈ l.lines) :
        (lines.filterMap (resolveLine p (indexBy Function.id p.functions))).map
          ResolvedFrame.function = lines.map (lineName p) := by
      induction lines with
      | nil => rfl
      | cons line rest ih =>
        rw [List.forall_mem_cons] at hlines
        obtain ⟨f, hf⟩ := h.lookup_function hmem hlines.1
        have hline : resolveLine p (indexBy Function.id p.functions) line = some
            ⟨.function f.id, profileString p f.name, profileString p f.filename, line.line⟩ := by
          rw [resolveLine, indexBy_getElem? Function.id p.functions h.functionIds]
          exact congrArg (Option.map _) hf
        have hname : lineName p line = profileString p f.name := by
          rw [lineName, hf]
          rfl
        rw [List.filterMap_cons_some hline, List.map_cons, ih hlines.2, List.map_cons, hname]
    simp only
    rw [if_neg (h.lines l hmem).1, hline _ (fun line hl' => List.mem_reverse.mp hl'),
      List.map_reverse]
    rfl

theorem reportNames_eq (h : WellLinked p) (s : Sample) :
    reportNames p s = s.locationIds.reverse.flatMap fun id => (locationNames p id).reverse := by
  unfold reportNames resolveStack
  rw [List.map_flatMap]
  apply List.flatMap_congr
  intro id _
  exact resolveLocation_names h id

theorem string_ofModel (periodType : Option ValueType) (index : UInt64) :
    (DecodedProfile.ofModel p periodType).string index =
      if 2 ^ 63 ≤ index.toNat then .error .intConversion else .ok (profileString p index) := by
  unfold DecodedProfile.string profileString DecodedProfile.ofModel
  dsimp only
  split_ifs with hfit hlen
  · rfl
  · rw [List.getElem?_eq_none hlen]
    rfl
  · rw [List.getElem?_eq_getElem (Nat.lt_of_not_le hlen)]
    rfl

theorem optionalString_ok (periodType : Option ValueType) (index : UInt64) :
    (∃ s, optionalString (.ofModel p periodType) index = .ok s) ↔ index.toNat < 2 ^ 63 := by
  unfold optionalString
  rw [string_ofModel]
  by_cases hzero : index = 0
  · simp [hzero]
  · by_cases hfit : 2 ^ 63 ≤ index.toNat
    · rw [if_pos hzero, if_pos hfit]
      constructor
      · rintro ⟨s, hs⟩
        cases hs
      · intro h
        omega
    · rw [if_pos hzero, if_neg hfit]
      exact ⟨fun _ => by omega, fun _ => ⟨_, rfl⟩⟩

theorem walkFunction_ok {periodType : Option ValueType} {f : Pprof.Function} {line : Line}
    {frame : WalkedFrame} (h : walkFunction (.ofModel p periodType) f line = .ok frame) :
    IndexesFit f ∧ frame.name = profileString p f.name := by
  unfold walkFunction at h
  simp only [bind_eq_ok, pure, Except.pure, Except.ok.injEq] at h
  obtain ⟨name, hname, systemName, hsystem, filename, hfile, rfl⟩ := h
  rw [string_ofModel] at hname
  split_ifs at hname with hfit
  have hsystemFit := (optionalString_ok periodType f.systemName).mp ⟨systemName, hsystem⟩
  have hfileFit := (optionalString_ok periodType f.filename).mp ⟨filename, hfile⟩
  exact ⟨⟨by omega, hsystemFit, hfileFit⟩, (Except.ok.inj hname).symm⟩

theorem walkFunction_of_fit {f : Pprof.Function} (hfit : IndexesFit f)
    (periodType : Option ValueType) (line : Line) :
    ∃ frame, walkFunction (.ofModel p periodType) f line = .ok frame := by
  obtain ⟨hname, hsystem, hfile⟩ := hfit
  obtain ⟨systemName, hsystem⟩ := (optionalString_ok (p := p) periodType f.systemName).mpr hsystem
  obtain ⟨filename, hfile⟩ := (optionalString_ok (p := p) periodType f.filename).mpr hfile
  unfold walkFunction
  rw [string_ofModel, if_neg (by omega), hsystem, hfile]
  exact ⟨_, rfl⟩

theorem walkLines_ok {periodType : Option ValueType} {lines : List Line}
    (hknown : ∀ line ∈ lines, ∃ f, lookup Function.id p.functions line.functionId = some f)
    {frames : List WalkedFrame} (h : walkLines (.ofModel p periodType) lines = .ok frames) :
    LinesFit p lines ∧ frames.map WalkedFrame.name = lines.map (lineName p) := by
  induction lines generalizing frames with
  | nil =>
    cases h
    exact ⟨by simp [LinesFit], rfl⟩
  | cons line rest ih =>
    rw [List.forall_mem_cons] at hknown
    obtain ⟨f, hf⟩ := hknown.1
    have hlookup : lookup Function.id (DecodedProfile.ofModel p periodType).functions
        line.functionId = some f := hf
    have hname : lineName p line = profileString p f.name := by
      rw [lineName, hf]
      rfl
    rw [walkLines, hlookup] at h
    simp only [bind_eq_ok, pure, Except.pure, Except.ok.injEq] at h
    obtain ⟨frame, hframe, later, hlater, rfl⟩ := h
    obtain ⟨hfit, hframeName⟩ := walkFunction_ok hframe
    obtain ⟨hrest, hnames⟩ := ih hknown.2 hlater
    refine ⟨?_, by rw [List.map_cons, List.map_cons, hnames, hframeName, hname]⟩
    refine List.forall_mem_cons.mpr ⟨?_, hrest⟩
    intro g hg
    rw [hf] at hg
    rwa [← Option.some.inj hg]

theorem walkLines_of_fit (periodType : Option ValueType) {lines : List Line}
    (hfit : LinesFit p lines) : ∃ frames, walkLines (.ofModel p periodType) lines = .ok frames := by
  induction lines with
  | nil => exact ⟨[], rfl⟩
  | cons line rest ih =>
    obtain ⟨hline, hrest⟩ := List.forall_mem_cons.mp hfit
    obtain ⟨later, hlater⟩ := ih hrest
    rw [walkLines]
    cases hf : lookup Function.id (DecodedProfile.ofModel p periodType).functions
        line.functionId with
    | none => exact ⟨later, hlater⟩
    | some f =>
      obtain ⟨frame, hframe⟩ := walkFunction_of_fit (p := p) (hline f hf) periodType line
      simp only [hframe, hlater]
      exact ⟨_, rfl⟩

/-- Every location of the list has lines whose string indexes are `Int`s. -/
def LocationsFit (p : PprofProfile) (ids : List UInt64) : Prop :=
  ∀ id ∈ ids, ∀ l, lookup Location.id p.locations id = some l → LinesFit p l.lines

theorem walkLocations_ok (hp : WellLinked p) {periodType : Option ValueType} {ids : List UInt64}
    {frames : List WalkedFrame} (h : walkLocations (.ofModel p periodType) ids = .ok frames) :
    LocationsFit p ids ∧ frames.map WalkedFrame.name = ids.flatMap (locationNames p) := by
  induction ids generalizing frames with
  | nil =>
    cases h
    exact ⟨by simp [LocationsFit], rfl⟩
  | cons id rest ih =>
    rw [walkLocations] at h
    cases hl : lookup Location.id p.locations id with
    | none =>
      have hlookup : lookup Location.id (DecodedProfile.ofModel p periodType).locations id =
          none := hl
      rw [hlookup] at h
      obtain ⟨hfit, hnames⟩ := ih h
      refine ⟨List.forall_mem_cons.mpr ⟨by simp [hl], hfit⟩, ?_⟩
      rw [hnames, List.flatMap_cons, locationNames, hl]
      rfl
    | some l =>
      have hlookup : lookup Location.id (DecodedProfile.ofModel p periodType).locations id =
          some l := hl
      rw [hlookup] at h
      simp only [bind_eq_ok, pure, Except.pure, Except.ok.injEq] at h
      obtain ⟨own, hown, later, hlater, rfl⟩ := h
      obtain ⟨hlines, hnames⟩ := walkLines_ok
        (fun line hline => hp.lookup_function (lookup_eq_some Location.id hl).1 hline) hown
      obtain ⟨hfit, hrest⟩ := ih hlater
      refine ⟨List.forall_mem_cons.mpr ⟨?_, hfit⟩, ?_⟩
      · intro l' hl'
        rw [hl] at hl'
        rwa [← Option.some.inj hl']
      · rw [List.map_append, hnames, hrest, List.flatMap_cons, locationNames, hl]
        rfl

theorem walkLocations_of_fit (periodType : Option ValueType) {ids : List UInt64}
    (hfit : LocationsFit p ids) :
    ∃ frames, walkLocations (.ofModel p periodType) ids = .ok frames := by
  induction ids with
  | nil => exact ⟨[], rfl⟩
  | cons id rest ih =>
    obtain ⟨hid, hrest⟩ := List.forall_mem_cons.mp hfit
    obtain ⟨later, hlater⟩ := ih hrest
    rw [walkLocations]
    cases hl : lookup Location.id (DecodedProfile.ofModel p periodType).locations id with
    | none => exact ⟨later, hlater⟩
    | some l =>
      obtain ⟨own, hown⟩ := walkLines_of_fit periodType (hid l hl)
      simp only [hown, hlater]
      exact ⟨_, rfl⟩

theorem flatMap_eq_iff {α β : Type} {f g : α → List β} (hlen : ∀ x, (f x).length = (g x).length)
    (xs : List α) : xs.flatMap f = xs.flatMap g ↔ ∀ x ∈ xs, f x = g x := by
  constructor
  · intro h
    induction xs with
    | nil => simp
    | cons x xs ih =>
      rw [List.flatMap_cons, List.flatMap_cons] at h
      obtain ⟨hx, hxs⟩ := List.append_inj h (hlen x)
      exact List.forall_mem_cons.mpr ⟨hx, ih hxs⟩
  · exact List.flatMap_congr

/-- The location reads the same from both ends and has no index that traps. -/
structure Unaffected (p : PprofProfile) (l : Location) : Prop where
  palindrome : (l.lines.map (lineName p)).reverse = l.lines.map (lineName p)
  fits : LinesFit p l.lines

/-- The report and the app show a sample the same names exactly where each of its
locations reads the same from both ends. -/
theorem stacks_agree_iff (hagrees : d.Agrees p) (hp : WellLinked p) (s : Sample) :
    (∃ frames, walkStack d s = .ok frames ∧ frames.map WalkedFrame.name = reportNames p s) ↔
      ∀ id ∈ s.locationIds, ∀ l, lookup Location.id p.locations id = some l → Unaffected p l := by
  obtain ⟨periodType, -, rfl⟩ := hagrees
  have hparts := flatMap_eq_iff (f := locationNames p)
    (g := fun id => (locationNames p id).reverse) (fun id => List.length_reverse.symm)
    s.locationIds.reverse
  rw [reportNames_eq hp]
  constructor
  · rintro ⟨frames, hwalk, hnames⟩
    obtain ⟨hfit, hwalked⟩ := walkLocations_ok hp hwalk
    have hsame := hparts.mp (hwalked.symm.trans hnames)
    intro id hid l hl
    have hid' : id ∈ s.locationIds.reverse := List.mem_reverse.mpr hid
    have hreverse := hsame id hid'
    unfold locationNames at hreverse
    rw [hl] at hreverse
    exact ⟨hreverse.symm, hfit id hid' l hl⟩
  · intro h
    have hfit : LocationsFit p s.locationIds.reverse :=
      fun id hid l hl => (h id (List.mem_reverse.mp hid) l hl).fits
    obtain ⟨frames, hwalk⟩ := walkLocations_of_fit periodType hfit
    refine ⟨frames, hwalk, ?_⟩
    rw [(walkLocations_ok hp hwalk).2, hparts]
    intro id hid
    unfold locationNames
    cases hl : lookup Location.id p.locations id with
    | none => rfl
    | some l => exact (h id (List.mem_reverse.mp hid) l hl).palindrome.symm

def inlined : PprofProfile :=
  { PprofProfile.withStrings (.ofStrings ["", "main", "outer", "inlined_leaf"]) with
    functions := [⟨1, 1, 1, 0, 0⟩, ⟨2, 2, 2, 0, 0⟩, ⟨3, 3, 3, 0, 0⟩]
    locations := [⟨1, 0, 0x1000, [⟨1, 10, 0⟩], false⟩,
      ⟨2, 0, 0x2000, [⟨3, 30, 0⟩, ⟨2, 20, 0⟩], false⟩]
    samples := [⟨[2, 1], [10], []⟩] }

theorem inlined_wellLinked : WellLinked inlined where
  locationIds := by decide
  functionIds := by decide
  lines := by
    change ∀ l ∈ ([⟨1, 0, 0x1000, [⟨1, 10, 0⟩], false⟩,
      ⟨2, 0, 0x2000, [⟨3, 30, 0⟩, ⟨2, 20, 0⟩], false⟩] : List Location), l.lines ≠ [] ∧
        ∀ line ∈ l.lines, line.functionId ∈ ([1, 2, 3] : List UInt64)
    decide

theorem inlined_agrees : (DecodedProfile.ofModel inlined none).Agrees inlined := ⟨none, rfl, rfl⟩

theorem stacks_agree_iff_caller :
    ∃ frames, walkStack (.ofModel inlined none) ⟨[1], [10], []⟩ = .ok frames ∧
      frames.map WalkedFrame.name = reportNames inlined ⟨[1], [10], []⟩ := by
  rw [stacks_agree_iff inlined_agrees inlined_wellLinked]
  intro id hid l hl
  rw [List.mem_singleton.mp hid] at hl
  have hcaller : l = ⟨1, 0, 0x1000, [⟨1, 10, 0⟩], false⟩ := (Option.some.inj hl).symm
  subst hcaller
  refine ⟨rfl, ?_⟩
  intro line hline f hf
  rw [List.mem_singleton.mp hline] at hf
  have hmain : f = ⟨1, 1, 1, 0, 0⟩ := (Option.some.inj hf).symm
  subst hmain
  exact ⟨by decide, by decide, by decide⟩

/-- The app shows the inlined function above the one it is inlined into. -/
theorem inlined_lines_swapped :
    WellLinked inlined ∧ (DecodedProfile.ofModel inlined none).Agrees inlined ∧
      ∃ s ∈ inlined.samples, reportNames inlined s = ["main", "outer", "inlined_leaf"] ∧
        (∃ frames, walkStack (.ofModel inlined none) s = .ok frames ∧
          frames.map WalkedFrame.name = ["main", "inlined_leaf", "outer"]) ∧
        ¬∃ frames, walkStack (.ofModel inlined none) s = .ok frames ∧
          frames.map WalkedFrame.name = reportNames inlined s := by
  have hreport : reportNames inlined ⟨[2, 1], [10], []⟩ = ["main", "outer", "inlined_leaf"] := by
    rw [reportNames_eq inlined_wellLinked]
    rfl
  refine ⟨inlined_wellLinked, inlined_agrees, _, List.mem_cons_self, hreport, ⟨_, rfl, rfl⟩, ?_⟩
  rintro ⟨frames, hwalk, hnames⟩
  rw [hreport] at hnames
  cases hwalk
  revert hnames
  decide

end PProfessor.StackAgreement
