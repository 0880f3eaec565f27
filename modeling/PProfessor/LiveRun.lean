import PProfessor.LiveView

set_option autoImplicit false

/-!
# The live view equals the capture

A sequence of growing snapshots, each published as its delta, and what the app
has accumulated in the end.
-/
namespace PProfessor.LiveView
open Capture CheckedArith Columns Fallible KeyedSum Kit Kit.LiveProfileAccumulator NumberedTable
  Pprof

/-- A snapshot as it is published: the orders in which the stacks of the snapshot
and of its delta are visited, the symbolizer and the files at that time. -/
structure Publication where
  snapshot : RawProfile
  order : List (StackKey × RawSampleSeries)
  deltaOrder : List (StackKey × RawSampleSeries)
  symbolizer : Symbolizer
  fileLen : String → Option UInt64
  startWall : ℤ

/-- The deltas of a sequence of snapshots, each with its publication. -/
def deltas : RawProfileCursor → List Publication → List (Publication × RawProfile)
  | _, [] => []
  | cursor, p :: rest =>
    match cursor.delta p.snapshot p.order with
    | (none, cursor) => deltas cursor rest
    | (some delta, cursor) => (p, delta) :: deltas cursor rest

def symbolize (freqHz : UInt32) (x : Publication × RawProfile) : SymbolicatedProfile :=
  fromRawWithSymbolizer x.2 x.1.deltaOrder x.1.symbolizer .hex freqHz x.1.startWall

/-- The profile that a delta is encoded from. -/
def published (freqHz : UInt32) (x : Publication × RawProfile) : PprofProfile :=
  builtProfile x.1.fileLen (symbolize freqHz x)

/-- The payload of a delta frame. -/
def payload (freqHz : UInt32) (x : Publication × RawProfile) : Except Panic (List UInt8) :=
  buildProto x.1.fileLen (symbolize freqHz x)

section
variable (text : List UInt8 → Option String) (canon : String → String)

def mergePayload (acc : LiveProfileAccumulator) (payload : List UInt8) :
    Except Trap LiveProfileAccumulator := do
  let delta ← DecodedProfile.decode text payload
  acc.merge canon delta

def liveView (payloads : List (List UInt8)) : Except Trap LiveProfileAccumulator :=
  payloads.foldlM (mergePayload text canon) (.new canon)

end

/-- Each snapshot extends the ones before it. -/
def Growing (publications : List Publication) : Prop :=
  publications.Pairwise fun p q => q.snapshot.Grows p.snapshot.observations

def lastObservations (seen : StackKey → List (Option UInt64)) (publications : List Publication) :
    StackKey → List (Option UInt64) :=
  publications.foldl (fun _ p => p.snapshot.observations) seen

def observed (xs : List (Publication × RawProfile)) (key : StackKey) : List (Option UInt64) :=
  xs.flatMap fun x => x.2.observations key

theorem deltas_spec {publications : List Publication} {cursor : RawProfileCursor}
    {seen : StackKey → List (Option UInt64)} (hcursor : cursor.Counts seen)
    (hregular : ∀ p ∈ publications, p.snapshot.Regular)
    (horder : ∀ p ∈ publications, Enumerates p.order p.snapshot.stackSeries)
    (hstart : ∀ p ∈ publications, p.snapshot.Grows seen) (hgrowing : Growing publications) :
    (∀ x ∈ deltas cursor publications, x.2.Regular) ∧
      ∀ key, lastObservations seen publications key =
        seen key ++ observed (deltas cursor publications) key := by
  induction publications generalizing cursor seen with
  | nil => exact ⟨fun _ hx => absurd hx List.not_mem_nil, fun key => (List.append_nil _).symm⟩
  | cons p rest ih =>
    rw [List.forall_mem_cons] at hregular horder hstart
    have hpair := List.pairwise_cons.mp hgrowing
    obtain ⟨hcursor', hstep⟩ := RawProfileCursor.delta_spec hcursor hregular.1.counted
      hstart.1 horder.1
    have hdelta : ∀ d, (cursor.delta p.snapshot p.order).1 = some d → d.Regular :=
      fun _ => RawProfileCursor.delta_regular hregular.1 horder.1
    unfold deltas
    generalize cursor.delta p.snapshot p.order = state at *
    obtain ⟨delta, cursor'⟩ := state
    obtain ⟨hreg, hlast⟩ := ih hcursor' hregular.2 horder.2 hpair.1 hpair.2
    cases delta with
    | none => exact ⟨hreg, fun key => (hlast key).trans (by rw [hstep key])⟩
    | some delta =>
      refine ⟨List.forall_mem_cons.mpr ⟨hdelta delta rfl, hreg⟩, fun key => ?_⟩
      refine (hlast key).trans ?_
      rw [hstep.2 key, List.append_assoc]
      rfl

theorem occurrences_append (a b : StackKey → List (Option UInt64))
    (k : Option (StackKey × Option UInt64)) :
    occurrences (fun key => a key ++ b key) k = occurrences a k + occurrences b k := by
  cases k with
  | none => rfl
  | some k =>
    obtain ⟨key, t⟩ := k
    dsimp only [occurrences]
    rw [List.count_append, Nat.cast_add]

theorem InRange.of_sublist {freqHz : UInt32} {a b : StackKey → List (Option UInt64)}
    (h : InRange freqHz b) (hab : ∀ key, (a key).Sublist (b key)) : InRange freqHz a := by
  refine ⟨fun k j => ?_, fun key t ht => h.timestamps key t ((hab key).subset ht)⟩
  have hle : occurrences a k ≤ occurrences b k := by
    cases k with
    | none => exact le_refl _
    | some k => exact Int.ofNat_le.mpr ((hab k.1).count_le k.2)
  exact lt_of_le_of_lt (mul_le_mul_of_nonneg_left hle (scale_nonneg freqHz j)) (h.values k j)

theorem symbolize_known {freqHz : UInt32} {x : Publication × RawProfile} (hr : x.2.Regular)
    (ho : Enumerates x.1.deltaOrder x.2.stackSeries) : ∀ s ∈ (symbolize freqHz x).samples,
    knownStack (symbolize freqHz x).frames s.stack = s.stack := by
  obtain ⟨-, hsamples⟩ := fromRaw_hex hr ho x.1.symbolizer freqHz x.1.startWall
  intro s hs
  rw [knownStack, List.filter_eq_self]
  exact fun addr haddr => decide_eq_true ((hsamples s hs).2.1 addr haddr)

theorem symbolize_kept {freqHz : UInt32} {x : Publication × RawProfile} (hr : x.2.Regular)
    (ho : Enumerates x.1.deltaOrder x.2.stackSeries) :
    (symbolize freqHz x).kept = (symbolize freqHz x).samples := by
  obtain ⟨-, hsamples⟩ := fromRaw_hex hr ho x.1.symbolizer freqHz x.1.startWall
  rw [SymbolicatedProfile.kept, List.filter_eq_self]
  intro s hs
  rw [symbolize_known hr ho s hs]
  exact decide_eq_true (hsamples s hs).1

theorem sample_inRange {freqHz : UInt32} {x : Publication × RawProfile} (hr : x.2.Regular)
    (ho : Enumerates x.1.deltaOrder x.2.stackSeries) (hrange : InRange freqHz x.2.observations)
    {s : Capture.Sample} (hs : s ∈ (symbolize freqHz x).samples) :
    (∀ j, scale freqHz j * s.count.toNat < 2 ^ 63) ∧
      ∀ ts, s.timestampNanos = some ts → ts.toNat < 2 ^ 63 := by
  obtain ⟨htotal, hsamples⟩ := fromRaw_hex hr ho x.1.symbolizer freqHz x.1.startWall
  obtain ⟨-, -, hone⟩ := hsamples s hs
  have hle : s.count.toNat ≤ (x.2.observations s.key.1).count s.key.2 := by
    rw [← htotal s.key.1 s.key.2]
    exact weight_le_total Sample.key (fun s => s.count.toNat) (fun _ _ => Nat.zero_le _) hs
  constructor
  · intro j
    have hcast : (s.count.toNat : ℤ) ≤ occurrences x.2.observations (some s.key) :=
      Int.ofNat_le.mpr hle
    exact lt_of_le_of_lt (mul_le_mul_of_nonneg_left hcast (scale_nonneg freqHz j))
      (hrange.values (some s.key) j)
  · intro ts hts
    have hcount : s.count = 1 := hone.resolve_left (by simp [hts])
    rw [hcount] at hle
    apply hrange.timestamps s.key.1 ts
    rw [← List.count_pos_iff]
    have hkey : s.key.2 = some ts := hts
    rw [hkey] at hle
    exact hle

/-- What the app makes of the payload of a delta. -/
structure Delivers (text : List UInt8 → Option String) (canon : String → String)
    (freqHz : UInt32) (x : Publication × RawProfile) (d : DecodedProfile) : Prop where
  decoded : DecodedProfile.decode text (published freqHz x).encode = .ok d
  agrees : d.Agrees (published freqHz x)
  ids : UniqueIds d
  body : BodyConverts d
  header : HeaderConverts d
  nonneg : ∀ c ∈ contributions canon d, ∀ j, 0 ≤ Row.col j c.2
  parts : Shows canon freqHz (contributions canon d) x.2.observations

theorem delivers {text : List UInt8 → Option String} (htext : ∀ s, text (utf8 s) = some s)
    {canon : String → String} (hcanon : Canonical canon) {freqHz : UInt32}
    {x : Publication × RawProfile} (hr : x.2.Regular)
    (ho : Enumerates x.1.deltaOrder x.2.stackSeries) (hfit : VecsFit (published freqHz x))
    (hrange : InRange freqHz x.2.observations) : ∃ d, Delivers text canon freqHz x d := by
  obtain ⟨htotal, -⟩ := fromRaw_hex hr ho x.1.symbolizer freqHz x.1.startWall
  have hin := fun s hs => sample_inRange (x := x) (s := s) hr ho hrange hs
  obtain ⟨names, hc⟩ := builtProfile_contents x.1.fileLen (symbolize freqHz x) hfit
  obtain ⟨d, hd, hagrees⟩ := DecodedProfile.decode_encode htext _ hc.built hfit.encoding
  rw [(PprofProfile.survivor_eq_self_iff _).mpr hc.noDefault] at hagrees
  obtain ⟨hbody, hheader⟩ := delta_converts hc hfit.toTablesFit hagrees
  refine ⟨d, hd, hagrees, delta_uniqueIds hc hagrees, hbody, hheader,
    delta_nonneg hc hagrees (fun s hs => (hin s hs).1) canon, fun k j => ?_⟩
  rw [← amount_eq_total, delta_amount hcanon hc hagrees (symbolize_kept hr ho)
    (symbolize_known hr ho) (fun s hs => (hin s hs).2) (fun s hs => (hin s hs).1)]
  have hscale := total_hom (fun s : Capture.Sample => some s.key) (fun s => s.count.toNat)
    ((AddMonoidHom.mulLeft (scale freqHz j)).comp (Nat.castAddMonoidHom ℤ))
    (symbolize freqHz x).samples k
  refine hscale.trans ?_
  change scale freqHz j * ((total _ _ _ k : ℕ) : ℤ) = _
  congr 1
  cases k with
  | none => rw [total_eq_zero _ _ fun _ _ => by simp]; rfl
  | some k =>
    rw [total_some]
    exact congrArg Nat.cast (htotal k.1 k.2)

section Run
variable {text : List UInt8 → Option String} {canon : String → String} {freqHz : UInt32}
  {xs : List (Publication × RawProfile)} {ds : List DecodedProfile}

theorem shows_all (h : List.Forall₂ (Delivers text canon freqHz) xs ds) :
    Shows canon freqHz (allContributions canon ds) (observed xs) := by
  induction h with
  | nil =>
    intro k j
    cases k with
    | none => exact (mul_zero _).symm
    | some k => exact (mul_zero (scale freqHz j)).symm
  | @cons x d xs ds hx _ ih =>
    intro k j
    rw [allContributions, List.flatMap_cons, total_append, map_add, hx.parts k j]
    refine (congrArg _ (ih k j)).trans ?_
    rw [← mul_add, ← occurrences_append]
    rfl

theorem nonneg_all (h : List.Forall₂ (Delivers text canon freqHz) xs ds) :
    ∀ c ∈ allContributions canon ds, ∀ j, 0 ≤ Row.col j c.2 := by
  intro c hc
  obtain ⟨d, hd, hmem⟩ := List.mem_flatMap.mp hc
  obtain ⟨x, -, hx⟩ := forall₂_exists_left h hd
  exact hx.nonneg c hmem

theorem cost_all (h : List.Forall₂ (Delivers text canon freqHz) xs ds) :
    ds.map cost = xs.map fun x =>
      cost (.ofModel (published freqHz x) none) := by
  induction h with
  | nil => rfl
  | cons hx _ ih =>
    obtain ⟨pt, -, rfl⟩ := hx.agrees
    rw [List.map_cons, List.map_cons, ih]
    rfl

theorem liveView_eq_mergeAll (h : List.Forall₂ (Delivers text canon freqHz) xs ds) :
    liveView text canon (xs.map fun x => (published freqHz x).encode) =
      mergeAll canon ds := by
  unfold liveView mergeAll
  generalize LiveProfileAccumulator.new canon = acc
  induction h generalizing acc with
  | nil => rfl
  | cons hx _ ih =>
    rw [List.map_cons, List.foldlM_cons, List.foldlM_cons, mergePayload, hx.decoded]
    exact congrArg _ (funext ih)

theorem sumsFit_of_shows {parts : List (SampleView × Row)}
    {seen : StackKey → List (Option UInt64)} (hnonneg : ∀ c ∈ parts, ∀ j, 0 ≤ Row.col j c.2)
    (hshows : Shows canon freqHz parts seen) (hrange : InRange freqHz seen) : SumsFit parts := by
  intro done k j hdone
  have hle := total_le_of_coarser Prod.fst (fun c => Row.col j c.2) (observationOf canon)
    (fun c hc => hnonneg c hc j) hdone.sublist k
  have hpos := total_nonneg Prod.fst (fun c => Row.col j c.2)
    (fun c hc => hnonneg c (hdone.subset hc) j) k
  have hall := hshows (observationOf canon k) j
  have hlt := hrange.values (observationOf canon k) j
  rw [total_hom] at hle hpos
  rw [total_hom, hall] at hle
  exact ⟨by omega, lt_of_le_of_lt hle hlt⟩

theorem mergeAll_grouped (h : List.Forall₂ (Delivers text canon freqHz) xs ds)
    (hrange : InRange freqHz (observed xs))
    (hsize : 1 + (xs.map fun x =>
      cost (.ofModel (published freqHz x) none)).sum < 2 ^ 63) :
    ∃ acc, mergeAll canon ds = .ok acc ∧
      Grouped (contributions canon acc.profile) (allContributions canon ds) := by
  have hsums := sumsFit_of_shows (nonneg_all h) (shows_all h) hrange
  have hids : ∀ d ∈ ds, UniqueIds d := by
    intro d hd
    obtain ⟨x, -, hx⟩ := forall₂_exists_left h hd
    exact hx.ids
  have hfits : Fits ds := by
    refine ⟨fun d hd => ?_, fun before d hp _ => ?_⟩
    · obtain ⟨x, -, hx⟩ := forall₂_exists_left h hd
      exact hx.body
    · obtain ⟨x, -, hx⟩ := forall₂_exists_left h (hp.subset (List.mem_append_right _
        List.mem_cons_self))
      exact hx.header
  rw [← cost_all h, ← Nat.zero_add (ds.map cost).sum] at hsize
  obtain ⟨acc, hacc, hloop⟩ := mergeAll_returns hsize hids hsums hfits
  exact ⟨acc, hacc, hloop.grouped⟩

theorem mergeAll_shows (h : List.Forall₂ (Delivers text canon freqHz) xs ds)
    (hrange : InRange freqHz (observed xs))
    (hsize : 1 + (xs.map fun x =>
      cost (.ofModel (published freqHz x) none)).sum < 2 ^ 63) :
    ∃ acc, mergeAll canon ds = .ok acc ∧
      ∀ k j, amount canon acc.profile k j = scale freqHz j * occurrences (observed xs) k := by
  obtain ⟨acc, hacc, hgrouped⟩ := mergeAll_grouped h hrange hsize
  refine ⟨acc, hacc, fun k j => ?_⟩
  rw [amount_eq_total, hgrouped.total_comp (observationOf canon)]
  exact shows_all h k j

end Run

theorem payloads_eq {freqHz : UInt32} (hfreq : freqHz ≠ 0) (xs : List (Publication × RawProfile)) :
    xs.mapM (payload freqHz) = .ok (xs.map fun x => (published freqHz x).encode) :=
  mapM_eq_ok_of_forall fun _ _ => if_neg hfreq

/-- What the app has accumulated is the last snapshot. -/
theorem liveView_shows_capture {text : List UInt8 → Option String}
    (htext : ∀ s, text (utf8 s) = some s) {canon : String → String} (hcanon : Canonical canon)
    {freqHz : UInt32} (hfreq : freqHz ≠ 0) {publications : List Publication} {last : Publication}
    (hlast : publications.getLast? = some last)
    (hregular : ∀ p ∈ publications, p.snapshot.Regular)
    (horder : ∀ p ∈ publications, Enumerates p.order p.snapshot.stackSeries)
    (hgrowing : Growing publications)
    (hdelta : ∀ x ∈ deltas .new publications, Enumerates x.1.deltaOrder x.2.stackSeries)
    (hrange : InRange freqHz last.snapshot.observations)
    (hfit : ∀ x ∈ deltas .new publications, VecsFit (published freqHz x))
    (hsize : 1 + ((deltas .new publications).map fun x =>
      cost (.ofModel (published freqHz x) none)).sum < 2 ^ 63) :
    ∃ payloads acc, (deltas .new publications).mapM (payload freqHz) = .ok payloads ∧
      liveView text canon payloads = .ok acc ∧
      ∀ (thread : UInt64) (stack : List UInt64) (t : Option UInt64),
        amount canon acc.profile (some ((thread, stack), t)) 0 =
          (last.snapshot.observations (thread, stack)).count t ∧
        amount canon acc.profile (some ((thread, stack), t)) 1 =
          (last.snapshot.observations (thread, stack)).count t * (periodNanos freqHz).toInt := by
  obtain ⟨init, rfl⟩ := List.getLast?_eq_some_iff.mp hlast
  obtain ⟨hreg, hobs⟩ := deltas_spec RawProfileCursor.new_counts hregular horder
    (fun _ _ _ => ⟨_, List.nil_append _⟩) hgrowing
  have hall : last.snapshot.observations = observed (deltas .new (init ++ [last])) := by
    funext key
    have hkey := hobs key
    rw [lastObservations, List.foldl_append] at hkey
    exact hkey
  generalize deltas .new (init ++ [last]) = xs at *
  rw [hall] at hrange ⊢
  obtain ⟨ds, hds⟩ := exists_forall₂ fun x hx => delivers htext hcanon (hreg x hx) (hdelta x hx)
    (hfit x hx) (hrange.of_sublist fun key => List.sublist_flatten_of_mem (List.mem_map_of_mem hx))
  obtain ⟨acc, hacc, hamount⟩ := mergeAll_shows hds hrange hsize
  refine ⟨_, acc, payloads_eq hfreq xs, (liveView_eq_mergeAll hds).trans hacc,
    fun thread stack t => ?_⟩
  rw [hamount, hamount, periodNanos_toInt, scale, scale, one_mul, mul_comm]
  exact ⟨rfl, rfl⟩

def oneKey : StackKey := (7, [0x1000])

def oneSnapshot (count : UInt64) : RawProfile where
  stackSeries := (∅ : StackMap).insert oneKey ⟨count, none⟩
  threadNames := (∅ : Std.ExtHashMap UInt64 String).insert 7 "worker"
  startTime := 0
  endTime := 0
  images := []

def onePublication (count new : UInt64) : Publication where
  snapshot := oneSnapshot count
  order := [(oneKey, ⟨count, none⟩)]
  deltaOrder := [(oneKey, ⟨new, none⟩)]
  symbolizer := fun _ => some ⟨"main", "main.c", 3⟩
  fileLen := fun _ => none
  startWall := 0

theorem oneSnapshot_regular (count : UInt64) : (oneSnapshot count).Regular := by
  have hget : ∀ key series, (oneSnapshot count).stackSeries[(key : StackKey)]? = some series →
      key = oneKey ∧ series = ⟨count, none⟩ := by
    intro key series h
    rw [oneSnapshot, Std.ExtHashMap.getElem?_insert] at h
    split_ifs at h with hk
    · exact ⟨(LawfulBEq.eq_of_beq hk).symm, (Option.some.inj h).symm⟩
    · simp at h
  refine ⟨fun key series h => ?_, fun key series h => ?_⟩
  · rw [(hget key series h).1]
    exact List.cons_ne_nil _ _
  · rw [(hget key series h).2]
    exact fun timestamps ht => absurd ht (by simp)

theorem oneSnapshot_observations (count : UInt64) (key : StackKey) :
    (oneSnapshot count).observations key =
      if key = oneKey then List.replicate count.toNat none else [] := by
  unfold RawProfile.observations observationsIn oneSnapshot
  rw [Std.ExtHashMap.getElem?_insert]
  by_cases h : key = oneKey
  · rw [if_pos (by simpa using h.symm), if_pos h]
    rfl
  · rw [if_neg (by simpa using Ne.symm h), if_neg h]
    simp

theorem oneSnapshot_enumerates (count : UInt64) :
    Enumerates [(oneKey, ⟨count, none⟩)] (oneSnapshot count).stackSeries := by
  refine ⟨List.nodup_singleton _, fun key series => ?_⟩
  rw [oneSnapshot, Std.ExtHashMap.getElem?_insert, List.mem_singleton, Prod.mk.injEq]
  by_cases h : key = oneKey
  · rw [if_pos (by simpa using h.symm), Option.some.injEq]
    exact ⟨fun hk => hk.2.symm, fun hs => ⟨h, hs.symm⟩⟩
  · rw [if_neg (by simpa using Ne.symm h)]
    simp [h]

theorem oneSnapshot_inRange : InRange 1000 (oneSnapshot 5).observations := by
  constructor
  · intro k j
    have hle : occurrences (oneSnapshot 5).observations k ≤ 5 := by
      cases k with
      | none => decide
      | some k =>
        change (((oneSnapshot 5).observations k.1).count k.2 : ℤ) ≤ 5
        rw [oneSnapshot_observations]
        split_ifs
        · exact Int.ofNat_le.mpr (List.count_le_length.trans_eq List.length_replicate)
        · exact (by decide : (0 : ℤ) ≤ 5)
    exact scale_mul_lt 1000 j (hle.trans (by norm_num))
  · intro key t ht
    rw [oneSnapshot_observations] at ht
    split_ifs at ht
    · exact absurd (List.eq_of_mem_replicate ht) (by simp)
    · cases ht

theorem oneDelta (cursor : RawProfileCursor) (count : UInt64)
    (h : cursor.previous oneKey < count) :
    cursor.delta (oneSnapshot count) [(oneKey, ⟨count, none⟩)] =
      (some (oneSnapshot (count - cursor.previous oneKey)),
        ⟨cursor.counts.insert oneKey count⟩) := by
  unfold RawProfileCursor.delta
  rw [List.foldl_cons, List.foldl_nil, RawProfileCursor.deltaStep_of_lt h]
  dsimp only
  rw [if_neg (by simp)]
  rfl

theorem deltas_twice :
    deltas .new [onePublication 2 2, onePublication 5 3] =
      [(onePublication 2 2, oneSnapshot 2), (onePublication 5 3, oneSnapshot 3)] := by
  have h₁ := RawProfileCursor.previous_new oneKey
  have h₂ := RawProfileCursor.new.previous_insert_self oneKey 2
  have hd₁ := oneDelta .new 2 (by rw [h₁]; decide)
  have hd₂ := oneDelta ⟨RawProfileCursor.new.counts.insert oneKey 2⟩ 5 (by rw [h₂]; decide)
  rw [h₁] at hd₁
  rw [h₂] at hd₂
  simp only [deltas, onePublication, hd₁, hd₂]
  rfl

theorem liveView_shows_capture_twice :
    ∃ payloads acc, (deltas .new [onePublication 2 2, onePublication 5 3]).mapM (payload 1000) =
        .ok payloads ∧ liveView fromUtf8 id payloads = .ok acc ∧
      ∀ (thread : UInt64) (stack : List UInt64) (t : Option UInt64),
        amount id acc.profile (some ((thread, stack), t)) 0 =
          ((oneSnapshot 5).observations (thread, stack)).count t ∧
        amount id acc.profile (some ((thread, stack), t)) 1 =
          ((oneSnapshot 5).observations (thread, stack)).count t *
            (periodNanos 1000).toInt := by
  have hlast : [onePublication 2 2, onePublication 5 3].getLast? = some (onePublication 5 3) := rfl
  refine liveView_shows_capture (fun s => (fromUtf8_eq_some_iff _ _).mpr rfl) (fun _ _ => rfl)
    (by decide) hlast ?_ ?_ ?_ ?_ oneSnapshot_inRange ?_ ?_
  · rw [List.forall_mem_cons, List.forall_mem_singleton]
    exact ⟨oneSnapshot_regular 2, oneSnapshot_regular 5⟩
  · rw [List.forall_mem_cons, List.forall_mem_singleton]
    exact ⟨oneSnapshot_enumerates 2, oneSnapshot_enumerates 5⟩
  · refine List.pairwise_pair.mpr fun key => ?_
    change (oneSnapshot 2).observations key <+: (oneSnapshot 5).observations key
    rw [oneSnapshot_observations, oneSnapshot_observations]
    split_ifs
    · exact ⟨List.replicate 3 none, rfl⟩
    · exact List.prefix_refl _
  · rw [deltas_twice, List.forall_mem_cons, List.forall_mem_singleton]
    exact ⟨oneSnapshot_enumerates 2, oneSnapshot_enumerates 3⟩
  · rw [deltas_twice, List.forall_mem_cons, List.forall_mem_singleton]
    exact ⟨oneFrame_vecsFit _ 2, oneFrame_vecsFit _ 3⟩
  · rw [deltas_twice]
    have h₂ : published 1000 (onePublication 2 2, oneSnapshot 2) = _ := oneFrame_built _ 2
    have h₃ : published 1000 (onePublication 5 3, oneSnapshot 3) = _ := oneFrame_built _ 3
    rw [List.map_cons, List.map_singleton, h₂, h₃]
    change 1 + (21 + (21 + 0)) < 2 ^ 63
    norm_num

end PProfessor.LiveView
