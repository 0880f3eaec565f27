import PProfessor.SessionCompletion

set_option autoImplicit false

/-!
# No sample is counted twice

The application merges each delta at most once, and none whose write failed. What it has counted
for a stack is therefore part of the last snapshot that was sent.
-/
namespace PProfessor.Network
open Capture CheckedArith Columns Coordinator Framing KeyedSum Kit LiveView Publishing SessionStream

/-- Thread and address stack of a sample. -/
def keyOf (canon : String → String) (view : SampleView) : Option StackKey :=
  (observationOf canon view).map Prod.fst

/-- What the samples of a payload count for a stack. -/
def countIn (F : Foundation) (payload : List UInt8) (key : StackKey) : ℤ :=
  match DecodedProfile.decode F.text payload with
  | .ok d =>
    total (fun s => keyOf F.canon (sampleView F.canon d s)) (fun s => cell s.values 0) d.samples
      (some key)
  | .error _ => 0

theorem clampI64_bounds (v : UInt64) :
    0 ≤ (clampI64 v).toInt ∧ (clampI64 v).toInt ≤ (v.toNat : ℤ) := by
  rw [clampI64_toInt]
  omega

theorem keyOf_rendered {canon : String → String} (hcanon : Canonical canon)
    {profile : SymbolicatedProfile} {names : LabelNames} {p : Pprof.PprofProfile}
    {d : DecodedProfile} (hn : names.In p.strings) (hd : d.Agrees p) {s : Capture.Sample}
    {t : Pprof.Sample} {periodNs : Int64} (h : Renders profile names periodNs p s t)
    (hstack : knownStack profile.frames s.stack = s.stack) :
    keyOf canon (sampleView canon d t) = some s.key.1 := by
  obtain ⟨hthread, -⟩ := labels_rendered hcanon hn hd h
  have haddresses : (sampleView canon d t).stackLocations.map LocationView.address = s.stack := by
    obtain ⟨pt, -, rfl⟩ := hd
    exact stackView_addresses canon (h.locations.trans (by rw [hstack]))
  unfold keyOf observationOf
  rw [hthread, haddresses]
  rfl

theorem symbolize_count {freqHz : UInt32} {x : Publication × RawProfile} (hr : x.2.Regular)
    (ho : Enumerates x.1.deltaOrder x.2.stackSeries) (key : StackKey) :
    total (fun s : Capture.Sample => s.key.1) (fun s => s.count.toNat)
      (symbolize freqHz x).samples key = countOf x.2 key := by
  obtain ⟨htotal, -⟩ := fromRaw_hex hr ho x.1.symbolizer freqHz x.1.startWall
  have hfine : ∀ v : StackKey × Option UInt64, v.1 = key →
      total Sample.key (fun s => s.count.toNat) (symbolize freqHz x).samples v =
        total (fun t => (key, t)) (fun _ => 1) (x.2.observations key) v := by
    rintro ⟨_, t⟩ rfl
    refine (htotal _ t).trans ?_
    simp [total, List.count_eq_length_filter, beq_eq_decide]
  rw [total_comp_congr Prod.fst key hfine, ← observations_length hr.counted]
  simp [total]

theorem Encoded.decoded {F : Foundation} (htext : ∀ s, F.text (Pprof.utf8 s) = some s)
    {freqHz : UInt32} {publication : Publication} {delta : RawProfile} {payload : List UInt8}
    (h : Encoded freqHz publication delta payload) : ∃ names d,
      Contents (symbolize freqHz (publication, delta)) names
        (published freqHz (publication, delta)) ∧
      DecodedProfile.decode F.text payload = .ok d ∧
      d.Agrees (published freqHz (publication, delta)) := by
  obtain ⟨names, hc⟩ := builtProfile_contents publication.fileLen
    (symbolize freqHz (publication, delta)) h.fits
  obtain ⟨d, hd, hagrees⟩ := DecodedProfile.decode_encode htext _ hc.built h.fits.encoding
  rw [(Pprof.PprofProfile.survivor_eq_self_iff _).mpr hc.noDefault] at hagrees
  refine ⟨names, d, hc, ?_, hagrees⟩
  rw [h.eq]
  exact hd

/-- A delta is counted at most as it was taken; `clampI64` may lose some. -/
theorem countIn_bounds {F : Foundation} (htext : ∀ s, F.text (Pprof.utf8 s) = some s)
    (hcanon : Canonical F.canon) {freqHz : UInt32} {f : WrittenFrame} {x : RawProfile × RawProfile}
    (h : Carries freqHz f x) (key : StackKey) :
    0 ≤ countIn F f.payload key ∧ countIn F f.payload key ≤ countOf x.2 key := by
  obtain ⟨hr, publication, hencoded⟩ := h
  obtain ⟨names, d, hc, hdecode, hagrees⟩ := hencoded.decoded htext
  have hsamples : d.samples = (published freqHz (publication, x.2)).samples := by
    obtain ⟨pt, -, rfl⟩ := hagrees
    rfl
  have hrendered := hc.samples
  rw [symbolize_kept hr hencoded.order] at hrendered
  have hmem := forall₂_mem_left hrendered
  unfold countIn
  simp only [hdecode, hsamples]
  constructor
  · refine total_nonneg _ _ (fun t ht => ?_) _
    obtain ⟨s, -, hs⟩ := forall₂_exists_left hrendered ht
    rw [hs.values]
    exact (clampI64_bounds s.count).1
  · have hcount : total (fun s : Capture.Sample => s.key.1) (fun s => s.count.toNat)
        (symbolize freqHz (publication, x.2)).samples key = countOf x.2 key :=
      symbolize_count hr hencoded.order key
    have hle : total (fun t => keyOf F.canon (sampleView F.canon d t)) (fun t => cell t.values 0)
        (published freqHz (publication, x.2)).samples (some key) ≤
        total (fun s : Capture.Sample => some s.key.1) (fun s => (s.count.toNat : ℤ))
          (symbolize freqHz (publication, x.2)).samples (some key) := by
      refine total_le_of_forall₂ (hmem.imp fun s t hst => ⟨?_, ?_⟩) (some key)
      · exact (keyOf_rendered hcanon hc.labelNames hagrees hst.2
          (symbolize_known hr hencoded.order s hst.1)).symm
      · rw [hst.2.values]
        exact (clampI64_bounds s.count).2
    refine hle.trans_eq ?_
    rw [total_some, ← hcount]
    exact total_hom _ _ (Nat.castAddMonoidHom ℤ) _ _

theorem perm_flatMap_filter {α : Type} (xs : List (ℕ × α)) {n : ℕ} (h : ∀ x ∈ xs, x.1 < n) :
    xs.Perm ((List.range n).flatMap fun c => xs.filter fun x => x.1 = c) := by
  induction xs using List.reverseRecOn with
  | nil => simp
  | append_singleton xs x ih =>
    rw [List.forall_mem_append, List.forall_mem_singleton] at h
    have hparts : (fun c => (xs ++ [x]).filter fun y => y.1 = c) =
        Function.update (fun c => xs.filter fun y => y.1 = c) x.1
          ((xs.filter fun y => y.1 = x.1) ++ [x]) := by
      funext c
      rw [List.filter_append]
      by_cases hc : c = x.1
      · subst hc
        rw [Function.update_self, List.filter_cons_of_pos (by simp), List.filter_nil]
      · rw [Function.update_of_ne hc, List.filter_cons_of_neg (by simpa using Ne.symm hc),
          List.filter_nil, List.append_nil]
    rw [hparts]
    refine List.Perm.trans ?_ (SessionPublisher.flatMap_range_append
      (fun c => xs.filter fun y => y.1 = c) h.2 [x]).symm
    exact (ih h.1).append_right [x]

theorem Inv.handled_perm {M : Setting} {y : System} (h : Inv M y) :
    (y.handled.map Prod.snd).Perm ((List.range y.publisher.opened).flatMap y.handledOn) := by
  have hopened : ∀ x ∈ y.handled, x.1 < y.publisher.opened := by
    intro x hx
    by_contra hge
    obtain ⟨done, later, hframes, hreturned, -⟩ := (h.loops x.1).returned
    rw [h.publisher.unopened x.1 (Nat.le_of_not_lt hge)] at hframes
    obtain ⟨rfl, -⟩ := List.append_eq_nil_iff.mp hframes.symm
    have hnone := (List.append_eq_nil_iff.mp hreturned).1
    have hmem : x.2 ∈ y.handledOn x.1 :=
      List.mem_map_of_mem (List.mem_filter.mpr ⟨hx, by simp⟩)
    rw [hnone] at hmem
    cases hmem
  have hperm := (perm_flatMap_filter y.handled hopened).map Prod.snd
  rw [List.map_flatMap] at hperm
  exact hperm

def isDelta (frame : SessionFrame) : Bool := frame.header.kind = .profileDelta

theorem isDelta_received (f : WrittenFrame) :
    isDelta f.received = decide (f.kind = .profileDelta) := by
  unfold isDelta
  rw [decide_eq_decide]
  change SessionFrameKind.ofFrameKind f.kind = SessionFrameKind.ofFrameKind .profileDelta ↔ _
  exact SessionFrameKind.ofFrameKind_injective.eq_iff

theorem Inv.deltas_perm {M : Setting} {y : System} (h : Inv M y) :
    ((List.range y.publisher.opened).flatMap fun c =>
      ((y.publisher.sockets c).frames.map WrittenFrame.received).filter isDelta).Perm
        (y.deltas.map WrittenFrame.received) := by
  refine List.Perm.trans (.of_eq ?_) (h.deltas.map WrittenFrame.received)
  rw [SessionPublisher.sentFrames, List.filter_flatMap, List.map_flatMap]
  apply List.flatMap_congr
  intro c _
  rw [SessionPublisher.dataFrames, List.filter_filter, List.filter_map]
  congr 1
  apply List.filter_congr
  intro f _
  change isDelta f.received = _
  rw [isDelta_received]
  cases f.kind <;> rfl

theorem Inv.handled_subperm {M : Setting} {y : System} (h : Inv M y) :
    ((y.handled.map Prod.snd).filter isDelta).Subperm (y.deltas.map WrittenFrame.received) := by
  refine (h.handled_perm.filter isDelta).subperm.trans (.trans ?_ h.deltas_perm.subperm)
  rw [List.filter_flatMap]
  refine List.Sublist.subperm ?_
  apply List.Sublist.flatMap_right
  intro c _
  obtain ⟨done, later, hframes, hreturned, -⟩ := (h.loops c).returned
  have hinitial : y.handledOn c <+: (y.publisher.sockets c).frames.map WrittenFrame.received := by
    rw [hframes, List.map_append, ← hreturned, List.append_assoc]
    exact List.prefix_append ..
  exact hinitial.sublist.filter isDelta

/-- The deltas merged into a session. -/
def System.merged (y : System) (id : UUID) : List SessionFrame := (y.applied id).filter isDelta

theorem history_receive (s : State) (applied : UUID → List SessionFrame) (connectionID id : UUID)
    (frame : SessionFrame) : s.history applied (.receive connectionID frame) id = applied id ++
      if IsData frame ∧ (s.accepted connectionID frame).map Prod.fst = some id then [frame]
      else [] := by
  dsimp only [State.history]
  by_cases hdata : IsData frame
  · rw [if_pos hdata]
    cases ha : s.accepted connectionID frame with
    | none => simp
    | some found =>
      by_cases hid : id = found.1
      · subst hid
        simp [hdata]
      · simp [hid, Ne.symm hid]
  · simp [hdata]

theorem Step.applied_sublist {M : Setting} {y z : System} {a : Action} (h : Step M y a z)
    {id : UUID} (hy : (y.applied id).Sublist (y.handled.map Prod.snd)) :
    (z.applied id).Sublist (z.handled.map Prod.snd) := by
  cases h with
  | publishUpdate =>
    unfold System.publishUpdate
    dsimp only
    split_ifs <;> exact hy
  | send => exact hy
  | read => exact hy
  | close => exact hy
  | @handle c frame queue app hqueue hreceive =>
    change (y.app.history y.applied (.receive (M.connectionID c) frame) id).Sublist
      ((y.handled ++ [(c, frame)]).map Prod.snd)
    rw [history_receive, List.map_append]
    refine hy.append ?_
    split_ifs
    · exact List.Sublist.refl _
    · exact List.nil_sublist _

theorem Run.applied_sublist {M : Setting} {app : State} {y : System} {actions : List Action}
    (h : Run M (.start app) actions y) (id : UUID) :
    (y.applied id).Sublist (y.handled.map Prod.snd) := by
  induction h with
  | nil => exact List.nil_sublist _
  | snoc _ hstep ih => exact hstep.applied_sublist ih

theorem sum_le_of_subperm {α : Type} {xs ys : List α} {w : α → ℤ} (h : xs.Subperm ys)
    (hw : ∀ y ∈ ys, 0 ≤ w y) : (xs.map w).sum ≤ (ys.map w).sum := by
  obtain ⟨zs, hperm, hsublist⟩ := h
  rw [← (hperm.map w).sum_eq]
  refine (hsublist.map w).sum_le_sum fun v hv => ?_
  obtain ⟨y, hy, rfl⟩ := List.mem_map.mp hv
  exact hw y hy

theorem Inv.published_count {M : Setting} {y : System} (h : Inv M y) (key : StackKey) :
    (y.progress.sent.map fun x => countOf x.2 key).sum =
      (y.progress.published.map fun p => countOf p key).getD 0 := by
  rw [sum_countOf (fun x hx => (h.telescopes.counted x hx).2), ← h.telescopes.observed key]
  cases hp : y.progress.published with
  | none => rfl
  | some p =>
    obtain ⟨x, hx, rfl⟩ := Option.map_eq_some_iff.mp hp
    exact observations_length (h.telescopes.counted x (List.mem_of_getLast? hx)).1 key

theorem Inv.sent_count {M : Setting} {y : System} (h : Inv M y)
    (htext : ∀ s, M.foundation.text (Pprof.utf8 s) = some s) (hcanon : Canonical M.foundation.canon)
    (key : StackKey) : (y.deltas.map fun f => countIn M.foundation f.payload key).sum ≤
      ((y.progress.published.map fun p => countOf p key).getD 0 : ℕ) := by
  rw [← h.published_count, Nat.cast_list_sum, List.map_map]
  refine List.Forall₂.sum_le_sum (List.forall₂_map_left_iff.mpr (List.forall₂_map_right_iff.mpr ?_))
  exact h.carried.imp fun f x hfx => (countIn_bounds htext hcanon hfx key).2

theorem Inv.merged_subperm {M : Setting} {app : State} {actions : List Action} {y : System}
    (h : Inv M y) (hrun : Run M (.start app) actions y) (id : UUID) :
    (y.merged id).Subperm (y.deltas.map WrittenFrame.received) :=
  ((hrun.applied_sublist id).filter isDelta).subperm.trans h.handled_subperm

theorem Inv.subperm_count {M : Setting} {y : System} (h : Inv M y)
    (htext : ∀ s, M.foundation.text (Pprof.utf8 s) = some s) (hcanon : Canonical M.foundation.canon)
    {frames : List SessionFrame} (hframes : frames.Subperm (y.deltas.map WrittenFrame.received))
    (key : StackKey) : (frames.map fun f => countIn M.foundation f.payload key).sum ≤
      ((y.progress.published.map fun p => countOf p key).getD 0 : ℕ) := by
  refine (sum_le_of_subperm hframes fun f hf => ?_).trans ?_
  · obtain ⟨g, hg, rfl⟩ := List.mem_map.mp hf
    obtain ⟨x, -, hx⟩ := forall₂_exists_right h.carried hg
    exact (countIn_bounds htext hcanon hx key).1
  · rw [List.map_map]
    exact h.sent_count htext hcanon key

/-! ## Two deltas on two connections -/

def onePayload (count : UInt64) : List UInt8 :=
  (builtProfile (fun _ => none) (oneFrame count)).encode

theorem onePayload_length (count : UInt64) : (onePayload count).length ≤ 719 := by
  rw [onePayload, oneFrame_built]
  exact Pprof.PprofProfile.encode_length_le _

theorem onePayload_encoded (total count : UInt64) :
    Encoded 1000 (onePublication total count) (oneSnapshot count) (onePayload count) where
  order := oneSnapshot_enumerates count
  fits := oneFrame_vecsFit _ count
  payload := by
    have hfreq : (1000 : UInt32) ≠ 0 := by decide
    unfold LiveView.payload buildProto
    exact if_neg hfreq

theorem observed_one (counts : List UInt64) (key : StackKey) :
    observed (counts.map fun count => (onePublication count count, oneSnapshot count)) key =
      if key = oneKey then List.replicate (counts.map UInt64.toNat).sum none else [] := by
  induction counts with
  | nil =>
    split_ifs <;> rfl
  | cons count counts ih =>
    have hcons : observed ((count :: counts).map fun count =>
        (onePublication count count, oneSnapshot count)) key =
          (oneSnapshot count).observations key ++
            observed (counts.map fun count =>
              (onePublication count count, oneSnapshot count)) key :=
      List.flatMap_cons ..
    rw [hcons, ih, oneSnapshot_observations, List.map_cons, List.sum_cons]
    split_ifs
    · exact List.replicate_append_replicate
    · rfl

def oneView : SampleView :=
  sampleView oneSession.canon (.ofModel { started (oneFrame 0) (periodNanos 1000) with
    strings := .ofStrings (exportStrings ++ ["main", "main.c", "worker"])
    functions := [⟨1, 8, 8, 9, 0⟩]
    locations := [⟨1, 0, 0x1000, [⟨1, 3, 0⟩], false⟩] } none)
    ⟨[1], [], [⟨5, 0, 7, 0⟩, ⟨6, 10, 0, 0⟩]⟩

theorem contributions_one {count : UInt64} {d : DecodedProfile}
    (hd : d.Agrees (published 1000 (onePublication count count, oneSnapshot count))) :
    (contributions oneSession.canon d).map Prod.fst = [oneView] := by
  have hbuilt : published 1000 (onePublication count count, oneSnapshot count) = _ :=
    oneFrame_built _ count
  obtain ⟨pt, -, rfl⟩ := hd
  rw [hbuilt]
  rfl

/-- A fresh accumulator takes such deltas, and keeps one sample. -/
theorem onePayloads_merged (counts : List UInt64) (hlength : counts.length ≤ 2)
    (hsum : (counts.map UInt64.toNat).sum ≤ 5) : ∃ acc,
    liveView oneSession.text oneSession.canon (counts.map onePayload) = .ok acc ∧
      acc.profile.samples.length ≤ 1 := by
  have htext : ∀ s, oneSession.text (Pprof.utf8 s) = some s := fun s =>
    (Pprof.fromUtf8_eq_some_iff _ _).mpr rfl
  have hcanon : Canonical oneSession.canon := fun _ _ => rfl
  have hrange : InRange 1000 (observed (counts.map fun count =>
      (onePublication count count, oneSnapshot count))) := by
    refine oneSnapshot_inRange.of_sublist fun key => ?_
    rw [observed_one, oneSnapshot_observations]
    split_ifs
    · exact (List.replicate_sublist_replicate none).mpr hsum
    · exact List.nil_sublist _
  have hdelivers : ∀ x ∈ counts.map fun count => (onePublication count count, oneSnapshot count),
      ∃ d, Delivers oneSession.text oneSession.canon 1000 x d := by
    intro x hx
    have hrange' : InRange 1000 x.2.observations :=
      hrange.of_sublist fun key => List.sublist_flatten_of_mem (List.mem_map_of_mem hx)
    obtain ⟨count, -, rfl⟩ := List.mem_map.mp hx
    exact delivers htext hcanon (oneSnapshot_regular count) (oneSnapshot_enumerates count)
      (oneFrame_vecsFit _ count) hrange'
  obtain ⟨ds, hds⟩ := exists_forall₂ hdelivers
  have hcost : ∀ x ∈ counts.map fun count => (onePublication count count, oneSnapshot count),
      LiveProfileAccumulator.cost (.ofModel (published 1000 x) none) = 21 := by
    intro x hx
    obtain ⟨count, -, rfl⟩ := List.mem_map.mp hx
    have hbuilt : published 1000 (onePublication count count, oneSnapshot count) = _ :=
      oneFrame_built _ count
    rw [hbuilt]
    rfl
  obtain ⟨acc, hacc, hgrouped⟩ := mergeAll_grouped hds hrange (by
    rw [List.map_congr_left hcost, List.map_const', List.sum_replicate, List.length_map]
    simp only [smul_eq_mul]
    omega)
  refine ⟨acc, ?_, ?_⟩
  · have hlive := liveView_eq_mergeAll hds
    rw [List.map_map] at hlive
    exact hlive.trans hacc
  · have hkeys : (LiveProfileAccumulator.allContributions oneSession.canon ds).map Prod.fst ⊆
        [oneView] := by
      intro view hview
      obtain ⟨c, hc, rfl⟩ := List.mem_map.mp hview
      obtain ⟨d, hd, hcd⟩ := List.mem_flatMap.mp hc
      obtain ⟨x, hx, hdelivers⟩ := forall₂_exists_left hds hd
      obtain ⟨count, -, rfl⟩ := List.mem_map.mp hx
      rw [← contributions_one hdelivers.agrees]
      exact List.mem_map_of_mem hcd
    have hle := hgrouped.length_le hkeys
    unfold contributions at hle
    rwa [List.length_map] at hle

theorem take_delta (F : Foundation) (acc : LiveProfileAccumulator) (sequence : UInt64)
    (payload : List UInt8) :
    take F acc (WrittenFrame.received ⟨.profileDelta, sequence, payload⟩) =
      mergePayload F.text F.canon acc payload := rfl

theorem wholeHello_short : (ConnectOutcome.connected .whole).Short twoConnections.hello := by
  intro write h accepted kind hcut
  cases h
  cases hcut

theorem publishUpdate_step {y : System} {count new : UInt64} {p : SessionPublisher}
    {writing : WriteOutcome} (hopen : y.finished = false)
    (hensured : y.publisher.ensureConnected twoConnections.hello (.connected .whole) =
      (.ok true, p))
    (hlt : y.progress.cursor.previous oneKey < count)
    (hnew : count - y.progress.cursor.previous oneKey = new)
    (hgrows : (oneSnapshot count).Grows fun key =>
      (y.progress.published.map fun p => p.observations key).getD [])
    (hwriting : writing.Short (onePayload new)) :
    Step twoConnections y (.publishUpdate (onePublication count new) (onePayload new)
        (.connected .whole) ⟨.connected .whole, writing⟩)
      (System.publishDelta twoConnections { y with publisher := p } (onePublication count new)
        (onePayload new) ⟨.connected .whole, writing⟩) := by
  have hdelta : (y.progress.cursor.delta (onePublication count new).snapshot
      (onePublication count new).order).1 = some (oneSnapshot new) := by
    rw [← hnew]
    exact congrArg Prod.fst (oneDelta y.progress.cursor count hlt)
  have heq : y.publishUpdate twoConnections (onePublication count new) (onePayload new)
      (.connected .whole) ⟨.connected .whole, writing⟩ =
      System.publishDelta twoConnections { y with publisher := p } (onePublication count new)
        (onePayload new) ⟨.connected .whole, writing⟩ := by
    unfold System.publishUpdate
    simp only [hensured, unwrapOrFalse, hdelta, Option.isSome_some, and_self, if_true]
  rw [← heq]
  refine .publishUpdate hopen (oneSnapshot_regular count) (oneSnapshot_enumerates count) hgrows
    (fun delta h => ?_) wholeHello_short wholeHello_short hwriting
  cases hdelta.symm.trans h
  exact onePayload_encoded count new

def updatedOnce : System :=
  System.publishDelta twoConnections
    { System.start .initial with
      publisher := (SessionPublisher.new.ensureConnected helloPayload (.connected .whole)).2 }
    (onePublication 2 2) (onePayload 2) ⟨.connected .whole, .whole⟩

def updatedTwice : System :=
  updatedOnce.publishDelta twoConnections (onePublication 5 3) (onePayload 3)
    ⟨.connected .whole, .cut 0 .timedOut⟩

/-- Count 5 again, on connection 1. -/
def updatedThrice : System :=
  System.publishDelta twoConnections
    { updatedTwice with
      publisher := (updatedTwice.publisher.ensureConnected helloPayload (.connected .whole)).2 }
    (onePublication 5 3) (onePayload 3) ⟨.connected .whole, .whole⟩

theorem updatedOnce_progress :
    updatedOnce.progress.cursor.previous oneKey = 2 ∧
      updatedOnce.progress.published = some (oneSnapshot 2) := by
  have hprogress : updatedOnce.progress = Progress.start.publish (oneUpdate 2 true) := rfl
  have hlt : RawProfileCursor.new.previous oneKey < 2 := by
    rw [RawProfileCursor.previous_new]
    decide
  have hpublish := oneUpdate_publish hlt true
  rw [if_pos rfl] at hpublish
  rw [hprogress]
  simp only [Progress.publish, Progress.start, hpublish]
  exact ⟨RawProfileCursor.new.previous_insert_self oneKey 2, rfl⟩

theorem updatedTwice_progress : updatedTwice.progress = updatedOnce.progress := publish_rejected ..

theorem updatedThrice_run :
    ∃ actions, Run twoConnections (.start .initial) actions updatedThrice := by
  obtain ⟨hprevious, hpublished⟩ := updatedOnce_progress
  have hnew := RawProfileCursor.previous_new oneKey
  have hcut : (WriteOutcome.cut 0 .timedOut).Short (onePayload 3) := by
    intro accepted kind h
    cases h
    exact Nat.add_pos_left (by decide) _
  have hgrows : (oneSnapshot 5).Grows fun key =>
      (updatedOnce.progress.published.map fun p => p.observations key).getD [] := by
    rw [hpublished]
    exact oneSnapshot_grows (by decide)
  have hlt : (System.start .initial).progress.cursor.previous oneKey < 2 := by
    change RawProfileCursor.new.previous oneKey < 2
    rw [hnew]
    decide
  have hcount : 2 - (System.start .initial).progress.cursor.previous oneKey = 2 := by
    change 2 - RawProfileCursor.new.previous oneKey = 2
    rw [hnew]
    decide
  have hfirst : Step twoConnections (.start .initial) _ updatedOnce :=
    publishUpdate_step rfl rfl hlt hcount (fun key => List.nil_prefix) (fine_short _).2
  have hsecond : Step twoConnections updatedOnce _ updatedTwice :=
    publishUpdate_step rfl rfl (by rw [hprevious]; decide) (by rw [hprevious]; decide) hgrows hcut
  have hthird : Step twoConnections updatedTwice _ updatedThrice :=
    publishUpdate_step rfl rfl (by rw [updatedTwice_progress, hprevious]; decide)
      (by rw [updatedTwice_progress, hprevious]; decide) (by rwa [updatedTwice_progress])
      (fine_short _).2
  exact ⟨_, ((Run.nil.snoc hfirst).snoc hsecond).snoc hthird⟩

def helloAndDelta (sequence count : UInt64) : List WrittenFrame :=
  [⟨.hello, sequence, helloPayload⟩, ⟨.profileDelta, sequence + 1, onePayload count⟩]

theorem helloAndDelta_fits (sequence count : UInt64) :
    ∀ f ∈ helloAndDelta sequence count, f.Fits := by
  have hdelta : (⟨.profileDelta, sequence + 1, onePayload count⟩ : WrittenFrame).Fits :=
    (onePayload_length count).trans (by decide)
  rw [helloAndDelta, List.forall_mem_cons, List.forall_mem_singleton]
  exact ⟨hello_fits sequence, hdelta⟩

theorem helloAndDelta_length (sequence count : UInt64) :
    0 < (written WrittenFrame.bytes (helloAndDelta sequence count)).length ∧
      (written WrittenFrame.bytes (helloAndDelta sequence count)).length ≤ 64 * 1024 := by
  have hdelta := onePayload_length count
  rw [helloAndDelta, written_cons, written_singleton, List.length_append,
    WrittenFrame.length_bytes, WrittenFrame.length_bytes, helloPayload_length]
  dsimp only [SessionFrameHeader.encodedLength]
  omega

theorem updatedThrice_bytes :
    (updatedThrice.publisher.sockets 0).bytes =
        written WrittenFrame.bytes (helloAndDelta 1 2) ∧
      (updatedThrice.publisher.sockets 1).bytes =
        written WrittenFrame.bytes (helloAndDelta 4 3) := by
  have hfirst : updatedThrice.publisher.sockets 0 =
      ⟨helloAndDelta 1 2, some (⟨.profileDelta, 3, onePayload 3⟩, 0)⟩ := rfl
  have hsecond : updatedThrice.publisher.sockets 1 = ⟨helloAndDelta 4 3, none⟩ := rfl
  rw [hfirst, hsecond, Socket.bytes, Socket.bytes]
  exact ⟨List.append_nil _, List.append_nil _⟩

def bothRead : System :=
  (updatedThrice.setLoop 0 (readAll (helloAndDelta 1 2))).setLoop 1 (readAll (helloAndDelta 4 3))

theorem bothRead_run : ∃ actions, Run twoConnections (.start .initial) actions bothRead := by
  obtain ⟨actions, hupdated⟩ := updatedThrice_run
  obtain ⟨hbytes₀, hbytes₁⟩ := updatedThrice_bytes
  obtain ⟨hpos₀, hle₀⟩ := helloAndDelta_length 1 2
  obtain ⟨hpos₁, hle₁⟩ := helloAndDelta_length 4 3
  have hfirst : Step twoConnections updatedThrice _
      (updatedThrice.setLoop 0 (readAll (helloAndDelta 1 2))) :=
    readAll_step rfl hbytes₀ (helloAndDelta_fits 1 2) hpos₀ hle₀
  have hsecond : Step twoConnections (updatedThrice.setLoop 0 (readAll (helloAndDelta 1 2))) _
      bothRead :=
    readAll_step rfl hbytes₁ (helloAndDelta_fits 4 3) hpos₁ hle₁
  exact ⟨_, (hupdated.snoc hfirst).snoc hsecond⟩

def olderDelta : SessionFrame := WrittenFrame.received ⟨.profileDelta, 2, onePayload 2⟩

def newerDelta : SessionFrame := WrittenFrame.received ⟨.profileDelta, 5, onePayload 3⟩

theorem sampleCount_returns {profile : DecodedProfile} (h : profile.samples.length ≤ 1) :
    ∃ count, sampleCount profile = .ok count := by
  unfold sampleCount
  cases hs : profile.samples with
  | nil => exact ⟨0, rfl⟩
  | cons s rest =>
    rw [hs, List.length_cons] at h
    have hrest : rest = [] := List.length_eq_zero_iff.mp (by omega)
    subst hrest
    have hsum : addI64 0 (s.values.head?.getD 0) = some (0 + s.values.head?.getD 0) := by
      apply if_pos
      rw [Int64.toInt_zero, zero_add]
      exact toInt_inI64 _
    refine ⟨0 + s.values.head?.getD 0, ?_⟩
    rw [List.foldlM_cons, hsum]
    rfl

theorem delta_returns {F : Foundation} {s : State} {connectionID id : UUID} {frame : SessionFrame}
    {r : RuntimeSession} {x : ProfileSession} {acc : LiveProfileAccumulator}
    (hdata : IsData frame) (ha : s.accepted connectionID frame = some (id, r, x))
    (htake : take F r.accumulator frame = .ok acc) (hlength : acc.profile.samples.length ≤ 1) :
    ∃ app, s.receive F connectionID frame = .ok app := by
  obtain ⟨count, hcount⟩ := sampleCount_returns hlength
  rw [State.receive_data hdata ha, htake]
  dsimp only [bind, Except.bind, State.update]
  rw [hcount]
  exact ⟨_, rfl⟩

theorem newerDelta_accepted : afterHello.accepted 9 newerDelta =
    some (1, .new oneSession, firstHello.session oneSession 1 none) :=
  State.accepted_of rfl rfl rfl (by decide)

theorem newerDelta_received : ∃ app, afterHello.receive oneSession 9 newerDelta = .ok app := by
  obtain ⟨acc, hmerged, hlength⟩ := onePayloads_merged [3] (by decide) (by decide)
  have htake : take oneSession (RuntimeSession.new oneSession).accumulator newerDelta = .ok acc :=
    (take_delta ..).trans ((bind_pure _).symm.trans hmerged)
  exact delta_returns (.inr rfl) newerDelta_accepted htake hlength

def newerGreeted : System :=
  bothRead.handle twoConnections 1 newHello [newerDelta] afterHello

def newerMerged (app : State) : System :=
  newerGreeted.handle twoConnections 1 newerDelta [] app

theorem newerMerged_run {app : State} (h : afterHello.receive oneSession 9 newerDelta = .ok app) :
    ∃ actions, Run twoConnections (.start .initial) actions (newerMerged app) := by
  obtain ⟨actions, hread⟩ := bothRead_run
  have hhello : Step twoConnections bothRead (.handle 1) newerGreeted :=
    .handle rfl ((State.receive_hello rfl).trans
      (State.receiveHello_new firstHello_decoded firstHello_uuid rfl rfl))
  have hdelta : Step twoConnections newerGreeted (.handle 1) (newerMerged app) := .handle rfl h
  exact ⟨_, (hread.snoc hhello).snoc hdelta⟩

theorem newerMerged_applied (app : State) : (newerMerged app).applied 1 = [newerDelta] := by
  have happlied : (newerMerged app).applied 1 = newerGreeted.applied 1 ++
      if IsData newerDelta ∧ (afterHello.accepted 9 newerDelta).map Prod.fst = some 1
        then [newerDelta] else [] :=
    history_receive afterHello newerGreeted.applied 9 1 newerDelta
  rw [newerDelta_accepted, if_pos ⟨.inr rfl, rfl⟩] at happlied
  exact happlied

theorem newerMerged_merged (app : State) : (newerMerged app).merged 1 = [newerDelta] := by
  rw [System.merged, newerMerged_applied]
  rfl

end PProfessor.Network
