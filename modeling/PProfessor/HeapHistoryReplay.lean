import PProfessor.HeapHistoryLines

set_option autoImplicit false

/-!
# The replay of an allocation history

Which reports are accepted, and that an accepted one comes to the calls that its event section
records, whatever else stands there.
-/
namespace PProfessor.Heap
open KeyedSum Text

/-! ## The calls that a tracker takes -/

namespace Accounts
variable {t : NativeHeapTracker} {done : List Call}

theorem live_eq_none_iff (h : Accounts t done) (address : UInt64) :
    t.live[address]? = none ↔ ∀ b ∈ unreleased done, b.address ≠ address := by
  refine ⟨h.unreleased_ne, fun hne => ?_⟩
  cases hl : t.live[address]? with
  | none => rfl
  | some entry =>
    obtain ⟨b, hb, haddress, -⟩ := (h.live address entry.1 entry.2).mp hl
    exact absurd haddress (hne b hb)

end Accounts

/-- The allocation is at no null and no live address, and its stack stays within `i64::MAX`. -/
structure CallFits (done : List Call) (address size : UInt64) (stack : Stack) : Prop where
  notNull : address ≠ 0
  dead : ∀ b ∈ unreleased done, b.address ≠ address
  within : total Block.stack Block.allocCost
    (allocations (done ++ [.allocate address size stack])) stack ≤ costLimit

/-- After the calls done, every allocation of the calls to come fits. -/
def CallsFit (done : List Call) : List Call → Prop
  | [] => True
  | .allocate address size stack :: calls =>
    CallFits done address size stack ∧ CallsFit (done ++ [.allocate address size stack]) calls
  | .release address :: calls => CallsFit (done ++ [.release address]) calls

theorem Accounts.allocate_iff {t : NativeHeapTracker} {done : List Call} (h : Accounts t done)
    {address size : UInt64} {stack : Stack} (hstack : stack ≠ []) :
    (∃ t', NativeHeapTracker.allocate address size stack t = .ok () t') ↔
      CallFits done address size stack := by
  by_cases haddress : address = 0
  · constructor
    · rintro ⟨t', ht'⟩
      rw [NativeHeapTracker.allocate_run, if_pos haddress] at ht'
      cases ht'
    · exact fun hfits => absurd haddress hfits.notNull
  by_cases hdead : t.live[address]? = none
  · obtain ⟨v, grown, id, hv, -, hrun⟩ := h.allocate_dead size haddress hstack hdead
    have htotal : total Block.stack Block.allocCost
        (allocations (done ++ [.allocate address size stack])) stack =
          v.cost + (NativeHeapTracker.objectCost size).cost := by
      rw [allocations_append]
      exact Accounts.total_allocate hv address size
    rw [hrun]
    constructor
    · intro hok
      cases hsum : v.checkedAdd (NativeHeapTracker.objectCost size) with
      | error error =>
        rw [hsum] at hok
        obtain ⟨t', ht'⟩ := hok
        cases ht'
      | ok sum =>
        obtain ⟨hadd, hle⟩ := HeapValues.checkedAdd_ok hsum
        refine ⟨haddress, (h.live_eq_none_iff address).mp hdead, ?_⟩
        rwa [htotal, ← hadd]
    · intro hfits
      have hle := hfits.within
      rw [htotal] at hle
      obtain ⟨sum, hsum, -⟩ := HeapValues.checkedAdd_of_le hle
      rw [hsum]
      exact ⟨_, rfl⟩
  · constructor
    · rintro ⟨t', ht'⟩
      rw [NativeHeapTracker.allocate_run, if_neg haddress, if_neg hstack, if_pos hdead] at ht'
      cases ht'
    · exact fun hfits => absurd ((h.live_eq_none_iff address).mpr hfits.dead) hdead

theorem NativeHeapTracker.run_concat (t : NativeHeapTracker) (calls : List Call) (c : Call) :
    t.run (calls ++ [c]) =
      ((t.run calls).1 ++ ((t.run calls).2.run [c]).1, ((t.run calls).2.run [c]).2) := by
  induction calls generalizing t with
  | nil => rfl
  | cons d calls ih =>
    rw [List.cons_append, run]
    cases hd : d.run t with
    | ok u t' =>
      simp only [run, hd]
      rw [ih]
      rfl
    | error e t' =>
      simp only [run, hd]
      rw [ih]
      rfl

theorem NativeHeapTracker.length_run_le (t : NativeHeapTracker) (calls : List Call) :
    (t.run calls).1.length ≤ calls.length := by
  induction calls generalizing t with
  | nil => exact Nat.le_refl _
  | cons c calls ih =>
    rw [run]
    cases hc : c.run t with
    | ok u t' => exact Nat.succ_le_succ (ih t')
    | error e t' => exact Nat.le_succ_of_le (ih t')

namespace HistoryReader

def after (calls : List Call) : HistoryReader where
  tracker := ((NativeHeapTracker.new "native").run calls).2
  initialFrees := calls.length - ((NativeHeapTracker.new "native").run calls).1.length
  section_ := true
  imagesSection := false
  images := ∅

theorem after_inEvents (calls : List Call) : (after calls).InEvents := ⟨rfl, rfl⟩

variable {done : List Call}

theorem after_release (address : UInt64) :
    (after done).release address = after (done ++ [.release address]) := by
  have hle := (NativeHeapTracker.new "native").length_run_le done
  unfold release after
  rw [NativeHeapTracker.run_concat]
  cases hr : NativeHeapTracker.release address ((NativeHeapTracker.new "native").run done).2 with
  | ok u t' =>
    have hcall : (Call.release address).run ((NativeHeapTracker.new "native").run done).2 =
        .ok u t' := hr
    simp only [NativeHeapTracker.run, hcall, List.length_append, List.length_singleton]
    congr 1
    omega
  | error e t' =>
    have hcall : (Call.release address).run ((NativeHeapTracker.new "native").run done).2 =
        .error e t' := hr
    simp only [NativeHeapTracker.run, hcall, List.length_append, List.length_singleton,
      List.append_nil]
    congr 1
    omega

theorem after_allocate {address size : UInt64} {stack : Stack} {t' : NativeHeapTracker}
    (h : NativeHeapTracker.allocate address size stack (after done).tracker = .ok () t') :
    (after done).allocate address size stack =
      .ok (after (done ++ [.allocate address size stack])) := by
  have hle := (NativeHeapTracker.new "native").length_run_le done
  have hcall : (Call.allocate address size stack).run
      ((NativeHeapTracker.new "native").run done).2 = .ok () t' := h
  unfold allocate
  rw [h]
  unfold after
  rw [NativeHeapTracker.run_concat]
  simp only [NativeHeapTracker.run, hcall, List.length_append, List.length_singleton]
  congr 2
  omega

theorem Accounts.after_concat_release (h : Accounts (after done).tracker done) (address : UInt64) :
    Accounts (after (done ++ [.release address])).tracker (done ++ [.release address]) := by
  rw [← after_release]
  unfold release
  cases hr : NativeHeapTracker.release address (after done).tracker with
  | ok u t' => exact h.call (c := .release address) hr
  | error e t' => exact h.release_unknown hr

theorem Accounts.after_concat_allocate (h : Accounts (after done).tracker done)
    {address size : UInt64} {stack : Stack} {t' : NativeHeapTracker}
    (ht : NativeHeapTracker.allocate address size stack (after done).tracker = .ok () t') :
    Accounts (after (done ++ [.allocate address size stack])).tracker
      (done ++ [.allocate address size stack]) := by
  have hreader := after_allocate ht
  unfold allocate at hreader
  rw [ht] at hreader
  rw [← Except.ok.inj hreader]
  exact h.call (c := .allocate address size stack) ht

/-- One line of the event section: what it records, if the tracker takes it. -/
theorem read_event_iff (h : Accounts (after done).tracker done) {line : Line}
    (hline : line ≠ binaryImages) (r' : HistoryReader) :
    (after done).read line = .ok r' ↔
      ((Skipped line ∨ line = separator) ∧ r' = after done) ∨
      (∃ address size stack, AllocLine line address size stack ∧ CallFits done address size stack ∧
        r' = after (done ++ [.allocate address size stack])) ∨
      ∃ address, FreeLine line address ∧ r' = after (done ++ [.release address]) := by
  have hin := after_inEvents done
  have hskip (hs : Skipped line ∨ line = separator) :
      (after done).read line = .ok (after done) := by
    rcases hs with hs | rfl
    · exact hin.skipped hs
    · exact hin.separator
  constructor
  · intro hread
    by_cases hs : Skipped line ∨ line = separator
    · rw [hskip hs] at hread
      exact .inl ⟨hs, (Except.ok.inj hread).symm⟩
    by_cases halloc : "ALLOC ".toList <+: line
    · rw [hin.alloc halloc] at hread
      obtain ⟨⟨address, size, stack⟩, hparsed, hallocate⟩ := Fallible.bind_eq_ok.mp hread
      have hshape := (parseAlloc_eq_ok_iff halloc address size stack).mp hparsed
      have hne := hshape.stack_ne_nil
      dsimp only at hallocate
      have hcopy := hallocate
      unfold HistoryReader.allocate at hcopy
      cases ht : NativeHeapTracker.allocate address size stack (after done).tracker with
      | error e t' =>
        rw [ht] at hcopy
        cases hcopy
      | ok u t' =>
        rw [after_allocate ht] at hallocate
        exact .inr (.inl ⟨address, size, stack, hshape, (h.allocate_iff hne).mp ⟨t', ht⟩,
          (Except.ok.inj hallocate).symm⟩)
    by_cases hfree : "FREE ".toList <+: line
    · rw [hin.free hfree] at hread
      obtain ⟨address, hparsed, hrelease⟩ := Fallible.bind_eq_ok.mp hread
      rw [after_release] at hrelease
      exact .inr (.inr ⟨address, (parseFree_eq_ok_iff hfree address).mp hparsed,
        (Except.ok.inj hrelease).symm⟩)
    · exact absurd hread (hin.refused hline (fun hsep => hs (.inr hsep)) halloc hfree
        fun hskipped => hs (.inl hskipped))
  · rintro (⟨hs, rfl⟩ | ⟨address, size, stack, hshape, hfits, rfl⟩ | ⟨address, hshape, rfl⟩)
    · exact hskip hs
    · have hne := hshape.stack_ne_nil
      obtain ⟨t', ht⟩ := (h.allocate_iff hne).mpr hfits
      rw [hin.alloc hshape.1, (parseAlloc_eq_ok_iff hshape.1 address size stack).mpr hshape]
      exact after_allocate ht
    · rw [hin.free hshape.1, (parseFree_eq_ok_iff hshape.1 address).mpr hshape, ← after_release]
      rfl

/-- The loop over the event section. -/
theorem read_events_iff {events : List Line} (h : Accounts (after done).tracker done)
    (hlines : ∀ line ∈ events, line ≠ binaryImages) (r' : HistoryReader) :
    events.foldlM read (after done) = .ok r' ↔
      ∃ calls, EventLines events calls ∧ CallsFit done calls ∧ r' = after (done ++ calls) := by
  induction events generalizing done with
  | nil =>
    constructor
    · intro hread
      cases hread
      exact ⟨[], .nil, trivial, by rw [List.append_nil]⟩
    · rintro ⟨calls, hcalls, -, rfl⟩
      cases hcalls
      rw [List.append_nil]
      rfl
  | cons line events ih =>
    rw [List.forall_mem_cons] at hlines
    rw [List.foldlM_cons, Fallible.bind_eq_ok]
    simp only [read_event_iff h hlines.1]
    have happend (c : Call) (calls : List Call) : done ++ [c] ++ calls = done ++ c :: calls := by
      rw [List.append_assoc, List.singleton_append]
    constructor
    · rintro ⟨_, ⟨hs, rfl⟩ | ⟨address, size, stack, hshape, hfits, rfl⟩ | ⟨address, hshape, rfl⟩,
        hread⟩
      · obtain ⟨calls, hcalls, hfit, rfl⟩ := (ih h hlines.2).mp hread
        exact ⟨calls, .skip hs hcalls, hfit, rfl⟩
      · have hne := hshape.stack_ne_nil
        obtain ⟨t', ht⟩ := (h.allocate_iff hne).mpr hfits
        obtain ⟨calls, hcalls, hfit, rfl⟩ :=
          (ih (Accounts.after_concat_allocate h ht) hlines.2).mp hread
        exact ⟨_, .alloc hshape hcalls, ⟨hfits, hfit⟩, by rw [happend]⟩
      · obtain ⟨calls, hcalls, hfit, rfl⟩ :=
          (ih (Accounts.after_concat_release h address) hlines.2).mp hread
        exact ⟨_, .free hshape hcalls, hfit, by rw [happend]⟩
    · rintro ⟨calls, hcalls, hfit, rfl⟩
      cases hcalls with
      | skip hs hrest =>
        exact ⟨_, .inl ⟨hs, rfl⟩, (ih h hlines.2).mpr ⟨calls, hrest, hfit, rfl⟩⟩
      | @alloc _ address size stack _ calls hshape hrest =>
        have hne := hshape.stack_ne_nil
        obtain ⟨t', ht⟩ := (h.allocate_iff hne).mpr hfit.1
        refine ⟨_, .inr (.inl ⟨address, size, stack, hshape, hfit.1, rfl⟩), ?_⟩
        exact (ih (Accounts.after_concat_allocate h ht) hlines.2).mpr
          ⟨calls, hrest, hfit.2, by rw [happend]⟩
      | @free _ address _ calls hshape hrest =>
        refine ⟨_, .inr (.inr ⟨address, hshape, rfl⟩), ?_⟩
        exact (ih (Accounts.after_concat_release h address) hlines.2).mpr
          ⟨calls, hrest, hfit, by rw [happend]⟩

theorem accounts_after {events : List Line} {calls : List Call} (hcalls : EventLines events calls)
    (h : Accounts (after done).tracker done) (hfit : CallsFit done calls) :
    Accounts (after (done ++ calls)).tracker (done ++ calls) := by
  induction hcalls generalizing done with
  | nil =>
    rw [List.append_nil]
    exact h
  | skip _ _ ih => exact ih h hfit
  | @alloc _ address size stack _ calls hshape _ ih =>
    have hne := hshape.stack_ne_nil
    obtain ⟨t', ht⟩ := (h.allocate_iff hne).mpr hfit.1
    have hrest := ih (Accounts.after_concat_allocate h ht) hfit.2
    rwa [List.append_assoc, List.singleton_append] at hrest
  | @free _ address _ calls _ _ ih =>
    have hrest := ih (Accounts.after_concat_release h address) hfit
    rwa [List.append_assoc, List.singleton_append] at hrest

/-! ## A whole report -/

theorem read_preamble {r : HistoryReader} (hsection : r.section_ = false)
    (himages : r.imagesSection = false) {preamble : List Line}
    (h : ∀ line ∈ preamble, line ≠ separator ∧ line ≠ binaryImages) :
    preamble.foldlM read r = .ok r := by
  induction preamble with
  | nil => rfl
  | cons line preamble ih =>
    rw [List.forall_mem_cons] at h
    have hread : r.read line = .ok r := by
      unfold read
      rw [if_neg (by rw [himages]; decide), if_neg h.1.2, if_neg h.1.1, if_pos hsection]
    rw [List.foldlM_cons, hread]
    exact ih h.2

def insertImage (images : Std.ExtTreeMap UInt64 HeapMapping) (line : Line) :
    Std.ExtTreeMap UInt64 HeapMapping :=
  match parseImage line with
  | some image => images.insert image.memoryStart image
  | none => images

theorem read_images {r : HistoryReader} (himages : r.imagesSection = true) (lines : List Line) :
    lines.foldlM read r = .ok { r with images := lines.foldl insertImage r.images } := by
  induction lines generalizing r with
  | nil => rfl
  | cons line lines ih =>
    have hread : r.read line = .ok { r with images := insertImage r.images line } := by
      unfold read insertImage
      rw [if_pos himages]
      cases parseImage line <;> rfl
    rw [List.foldlM_cons, hread]
    exact ih himages

theorem read_before_images {r r' : HistoryReader} (himages : r.imagesSection = false)
    {line : Line} (hline : line ≠ binaryImages) (h : r.read line = .ok r') :
    r'.imagesSection = false ∧ (r.section_ = true ∨ line = separator → r'.section_ = true) := by
  unfold read at h
  rw [if_neg (by rw [himages]; decide), if_neg hline] at h
  split_ifs at h with hseparator hsection
  · cases h
    exact ⟨himages, fun _ => rfl⟩
  · cases h
    refine ⟨himages, fun hopened => ?_⟩
    rcases hopened with hopened | hopened
    · exact hopened
    · exact absurd hopened hseparator
  · obtain ⟨⟨address, size, stack⟩, -, h⟩ := Fallible.bind_eq_ok.mp h
    unfold HistoryReader.allocate at h
    dsimp only at h
    split at h
    · cases h
      exact ⟨himages, fun hopened => hopened.resolve_right hseparator⟩
    · cases h
  · obtain ⟨address, -, h⟩ := Fallible.bind_eq_ok.mp h
    cases h
    unfold HistoryReader.release
    split
    · exact ⟨himages, fun hopened => hopened.resolve_right hseparator⟩
    · exact ⟨himages, fun hopened => hopened.resolve_right hseparator⟩
  · cases h
    exact ⟨himages, fun hopened => hopened.resolve_right hseparator⟩

theorem reads_before_images {r r' : HistoryReader} (himages : r.imagesSection = false)
    {lines : List Line} (hlines : ∀ line ∈ lines, line ≠ binaryImages)
    (h : lines.foldlM read r = .ok r') :
    r'.imagesSection = false ∧ (separator ∈ lines → r'.section_ = true) := by
  refine Fallible.foldlM_invariant
    (fun done r => r.imagesSection = false ∧ (separator ∈ done → r.section_ = true)) lines
    ⟨himages, fun hmem => nomatch hmem⟩ ?_ h
  intro done line r r' hbefore hline hread
  obtain ⟨himages', hopened⟩ := read_before_images hbefore.1 (hlines line hline) hread
  refine ⟨himages', fun hmem => hopened ?_⟩
  rcases List.mem_append.mp hmem with hmem | hmem
  · exact .inl (hbefore.2 hmem)
  · exact .inr (List.mem_singleton.mp hmem).symm

theorem read_binaryImages {r : HistoryReader} (himages : r.imagesSection = false) :
    r.read binaryImages = .ok { r with imagesSection := true } := by
  unfold read
  rw [if_neg (by rw [himages]; decide), if_pos rfl]

theorem new_read_separator : HistoryReader.new.read separator = .ok (after []) := rfl

/-- The reader at the end of a report. -/
def atEnd (calls : List Call) (images : List Line) : HistoryReader :=
  { after calls with
    imagesSection := true
    images := images.foldl insertImage ∅ }

theorem accounts_after_nil : Accounts (after []).tracker [] := accounts_new "native"

/-- The loop over the lines ends in both sections exactly for lines of this form. -/
theorem reads_iff (lines : List Line) (r' : HistoryReader) :
    (lines.foldlM read .new = .ok r' ∧ r'.section_ = true ∧ r'.imagesSection = true) ↔
      ∃ preamble events images calls,
        lines = preamble ++ separator :: (events ++ binaryImages :: images) ∧
        (∀ line ∈ preamble, line ≠ separator ∧ line ≠ binaryImages) ∧
        (∀ line ∈ events, line ≠ binaryImages) ∧
        EventLines events calls ∧ CallsFit [] calls ∧ r' = atEnd calls images := by
  constructor
  · rintro ⟨hread, hsection, himages⟩
    by_cases hfound : binaryImages ∈ lines
    · obtain ⟨front, images, rfl, hfront⟩ := List.eq_append_cons_of_mem hfound
      have hfront' : ∀ line ∈ front, line ≠ binaryImages := fun line hl heq => hfront (heq ▸ hl)
      rw [List.foldlM_append] at hread
      obtain ⟨r₁, hr₁, hread⟩ := Fallible.bind_eq_ok.mp hread
      have hbefore := (reads_before_images rfl hfront' hr₁).1
      rw [List.foldlM_cons, read_binaryImages hbefore, Fallible.ok_bind, read_images rfl] at hread
      cases hread
      by_cases hopened : separator ∈ front
      · obtain ⟨preamble, events, rfl, hpreamble⟩ := List.eq_append_cons_of_mem hopened
        have hpreamble' : ∀ line ∈ preamble, line ≠ separator ∧ line ≠ binaryImages :=
          fun line hl => ⟨fun heq => hpreamble (heq ▸ hl),
            hfront' line (List.mem_append_left _ hl)⟩
        have hevents : ∀ line ∈ events, line ≠ binaryImages :=
          fun line hl => hfront' line (List.mem_append_right _ (List.mem_cons_of_mem _ hl))
        rw [List.foldlM_append, read_preamble rfl rfl hpreamble', Fallible.ok_bind,
          List.foldlM_cons, new_read_separator, Fallible.ok_bind,
          read_events_iff accounts_after_nil hevents] at hr₁
        obtain ⟨calls, hcalls, hfit, rfl⟩ := hr₁
        refine ⟨preamble, events, images, calls, ?_, hpreamble', hevents, hcalls, hfit, rfl⟩
        rw [List.append_assoc]
        rfl
      · have hpreamble : ∀ line ∈ front, line ≠ separator ∧ line ≠ binaryImages :=
          fun line hl => ⟨fun heq => hopened (heq ▸ hl), hfront' line hl⟩
        rw [read_preamble rfl rfl hpreamble] at hr₁
        cases hr₁
        cases hsection
    · have hbefore := (reads_before_images (r := .new) rfl
        (fun line hl heq => hfound (heq ▸ hl)) hread).1
      rw [hbefore] at himages
      cases himages
  · rintro ⟨preamble, events, images, calls, rfl, hpreamble, hevents, hcalls, hfit, rfl⟩
    have hread := (read_events_iff accounts_after_nil hevents _).mpr ⟨calls, hcalls, hfit, rfl⟩
    refine ⟨?_, rfl, rfl⟩
    rw [List.foldlM_append, read_preamble rfl rfl hpreamble, Fallible.ok_bind, List.foldlM_cons,
      new_read_separator, Fallible.ok_bind, List.foldlM_append, hread, Fallible.ok_bind,
      List.foldlM_cons, read_binaryImages rfl, Fallible.ok_bind, read_images rfl]
    rfl

end HistoryReader

/-- The parts of a report that is read to the end. -/
structure Report (lines : List Line) (events images : List Line) : Prop where
  parts : ∃ header preamble,
    lines = header :: (preamble ++ separator :: (events ++ binaryImages :: images)) ∧
    supportedHeader <+: header ∧ ∀ line ∈ preamble, line ≠ separator ∧ line ≠ binaryImages
  closed : ∀ line ∈ events, line ≠ binaryImages

/-- The tracker after the calls; releases that it does not know are ignored. -/
def replayed (calls : List Call) : NativeHeapTracker :=
  ((NativeHeapTracker.new "native").run calls).2

section

variable {order : Std.ExtHashMap UInt64 (UInt64 × ℕ) → List (UInt64 × UInt64 × ℕ)} {now : ℤ}

theorem parseReader_eq_ok_iff (lines : List Line) (profile : HeapProfile) :
    parseReader order now lines = .ok profile ↔ ∃ events images calls, Report lines events images ∧
      EventLines events calls ∧ CallsFit [] calls ∧
      ∃ tracked, (replayed calls).snapshot (order (replayed calls).live) now = .ok tracked ∧
        profile = (HistoryReader.atEnd calls images).finish tracked := by
  unfold parseReader
  rw [Fallible.bind_eq_ok]
  simp only [context_eq_ok_iff]
  constructor
  · rintro ⟨header, hheader, h⟩
    obtain ⟨rest, rfl⟩ : ∃ rest, lines = header :: rest := by
      cases lines with
      | nil => cases hheader
      | cons line rest =>
        cases hheader
        exact ⟨rest, rfl⟩
    by_cases hsupported : supportedHeader <+: header
    · rw [if_neg (not_not.mpr hsupported)] at h
      obtain ⟨r, hread, h⟩ := Fallible.bind_eq_ok.mp h
      by_cases hends : r.section_ = true ∧ r.imagesSection = true
      · rw [if_neg (not_not.mpr hends)] at h
        obtain ⟨tracked, htracked, h⟩ := Fallible.bind_eq_ok.mp h
        cases h
        obtain ⟨preamble, events, images, calls, hrest, hpreamble, hevents, hcalls, hfit, rfl⟩ :=
          (HistoryReader.reads_iff rest r).mp ⟨hread, hends⟩
        refine ⟨events, images, calls, ⟨⟨header, preamble, ?_, hsupported, hpreamble⟩, hevents⟩,
          hcalls, hfit, tracked, ?_, rfl⟩
        · rw [← hrest]
        · change ((replayed calls).snapshot (order (replayed calls).live) now).mapError _ = _
            at htracked
          cases hsnapshot : (replayed calls).snapshot (order (replayed calls).live) now with
          | error e =>
            rw [hsnapshot] at htracked
            cases htracked
          | ok found =>
            rw [hsnapshot] at htracked
            cases htracked
            rfl
      · rw [if_pos hends] at h
        cases h
    · rw [if_pos hsupported] at h
      cases h
  · rintro ⟨events, images, calls, ⟨⟨header, preamble, rfl, hsupported, hpreamble⟩, hevents⟩,
      hcalls, hfit, tracked, htracked, rfl⟩
    obtain ⟨hread, hends⟩ := (HistoryReader.reads_iff _ _).mpr
      ⟨preamble, events, images, calls, rfl, hpreamble, hevents, hcalls, hfit, rfl⟩
    refine ⟨header, rfl, ?_⟩
    rw [if_neg (not_not.mpr hsupported)]
    refine Fallible.bind_eq_ok.mpr ⟨_, hread, ?_⟩
    rw [if_neg (not_not.mpr hends)]
    refine Fallible.bind_eq_ok.mpr ⟨tracked, ?_, rfl⟩
    change ((replayed calls).snapshot (order (replayed calls).live) now).mapError _ = _
    rw [htracked]
    rfl

/-- The stacks of the allocations, with what was allocated under each of them and what of that
was not released. -/
def SamplesOf (calls : List Call) (samples : Std.ExtTreeMap Stack HeapValues) : Prop :=
  ∀ (stack : Stack) (v : HeapValues), samples[stack]? = some v ↔
    (∃ b ∈ allocations calls, b.stack = stack) ∧
    v.cost = (objectCount (allocations calls) stack, byteSum (allocations calls) stack,
      objectCount (unreleased calls) stack, byteSum (unreleased calls) stack) ∧
    v.cost ≤ costLimit

theorem snapshot_replayed (horder : ∀ live, Enumerates (order live) live) {events : List Line}
    {calls : List Call} (hcalls : EventLines events calls) (hfit : CallsFit [] calls) :
    ∃ tracked, (replayed calls).snapshot (order (replayed calls).live) now = .ok tracked ∧
      SamplesOf calls tracked.samples ∧ ∀ images, KeepsSamples (attachImage images)
        tracked.samples (rekey (attachImage images) tracked.samples) := by
  have haccounts := HistoryReader.accounts_after hcalls HistoryReader.accounts_after_nil hfit
  obtain ⟨tracked, htracked, -, hsamples⟩ := haccounts.snapshot (horder _) now
  have hkey (s : Stack) (hs : s ∈ tracked.samples) : Unmapped s := by
    rw [Std.ExtTreeMap.mem_iff_isSome_getElem?] at hs
    obtain ⟨v, hv⟩ := Option.isSome_iff_exists.mp hs
    obtain ⟨⟨b, hb, rfl⟩, -⟩ := (hsamples s v).mp hv
    exact hcalls.unmapped b hb
  exact ⟨tracked, htracked, hsamples, fun images => rekey_keeps
    (fun s s' hs hs' heq => apart_of_unmapped images (hkey s hs) (hkey s' hs') heq)
    (attachImage_address images)⟩

theorem parseReader_skipped {front back : List Line} {line : Line} (hopened : separator ∈ front)
    (hfront : binaryImages ∉ front) (hline : Skipped line) :
    parseReader order now (front ++ line :: back) = parseReader order now (front ++ back) := by
  obtain ⟨header, rest, rfl⟩ : ∃ header rest, front = header :: rest := by
    cases front with
    | nil => cases hopened
    | cons header rest => exact ⟨header, rest, rfl⟩
  unfold parseReader
  simp only [List.cons_append, List.head?_cons, List.tail_cons, context, Fallible.ok_bind]
  by_cases hsupported : supportedHeader <+: header
  · have hrest : separator ∈ rest := by
      rcases List.mem_cons.mp hopened with rfl | hrest
      · exact absurd hsupported (by decide)
      · exact hrest
    have hloop : (rest ++ line :: back).foldlM HistoryReader.read .new =
        (rest ++ back).foldlM HistoryReader.read .new := by
      rw [List.foldlM_append, List.foldlM_append]
      cases hread : rest.foldlM HistoryReader.read .new with
      | error e => rfl
      | ok r =>
        obtain ⟨himages, hsection⟩ := HistoryReader.reads_before_images rfl
          (fun other hl heq => hfront (heq ▸ List.mem_cons_of_mem _ hl)) hread
        have hin : r.InEvents := ⟨hsection hrest, himages⟩
        rw [Fallible.ok_bind, Fallible.ok_bind, List.foldlM_cons, hin.skipped hline,
          Fallible.ok_bind]
    rw [hloop]
  · rw [if_pos hsupported, if_pos hsupported]
    rfl

end

/-- A report is accepted exactly where every line of its event section has a known shape and
every allocation fits. Its profile then has the stacks and values of the calls recorded there, and
does not depend on the skipped lines. -/
theorem parse_history_exact
    (order : Std.ExtHashMap UInt64 (UInt64 × ℕ) → List (UInt64 × UInt64 × ℕ)) (now : ℤ)
    (horder : ∀ live, Enumerates (order live) live) (text : List Char) :
    ((∃ profile, parseHistory order now text = .ok profile) ↔
      ∃ events images calls, Report (lines text) events images ∧ EventLines events calls ∧
        CallsFit [] calls) ∧
    (∀ events images calls, Report (lines text) events images → EventLines events calls →
      CallsFit [] calls →
      ∃ tracked profile,
        (replayed calls).snapshot (order (replayed calls).live) now = .ok tracked ∧
        parseHistory order now text = .ok profile ∧
        profile = (HistoryReader.atEnd calls images).finish tracked ∧
        SamplesOf calls tracked.samples ∧
        KeepsSamples (attachImage (HistoryReader.atEnd calls images).images) tracked.samples
          profile.samples) ∧
    ∀ text' front line back, lines text = front ++ back → lines text' = front ++ line :: back →
      separator ∈ front → binaryImages ∉ front → Skipped line →
      parseHistory order now text' = parseHistory order now text := by
  have hreplays : ∀ events images calls, Report (lines text) events images →
      EventLines events calls → CallsFit [] calls → ∃ tracked,
      (replayed calls).snapshot (order (replayed calls).live) now = .ok tracked ∧
        parseHistory order now text = .ok ((HistoryReader.atEnd calls images).finish tracked) ∧
        SamplesOf calls tracked.samples ∧
        KeepsSamples (attachImage (HistoryReader.atEnd calls images).images) tracked.samples
          (rekey (attachImage (HistoryReader.atEnd calls images).images) tracked.samples) := by
    intro events images calls hreport hcalls hfit
    obtain ⟨tracked, htracked, hsamples, hkeeps⟩ := snapshot_replayed horder hcalls hfit
    exact ⟨tracked, htracked, (parseReader_eq_ok_iff (lines text) _).mpr
      ⟨events, images, calls, hreport, hcalls, hfit, tracked, htracked, rfl⟩, hsamples,
      hkeeps _⟩
  refine ⟨⟨?_, ?_⟩, ?_, ?_⟩
  · rintro ⟨profile, hprofile⟩
    obtain ⟨events, images, calls, hreport, hcalls, hfit, -⟩ :=
      (parseReader_eq_ok_iff (lines text) profile).mp hprofile
    exact ⟨events, images, calls, hreport, hcalls, hfit⟩
  · rintro ⟨events, images, calls, hreport, hcalls, hfit⟩
    obtain ⟨tracked, -, hok, -⟩ := hreplays events images calls hreport hcalls hfit
    exact ⟨_, hok⟩
  · intro events images calls hreport hcalls hfit
    obtain ⟨tracked, htracked, hok, hsamples, hkeeps⟩ :=
      hreplays events images calls hreport hcalls hfit
    exact ⟨tracked, _, htracked, hok, rfl, hsamples, hkeeps⟩
  · intro text' front line back hlines hlines' hopened hfront hline
    unfold parseHistory
    rw [hlines, hlines']
    exact parseReader_skipped hopened hfront hline

def shortReport : List Char :=
  ("malloc_history Report Version:  2.0\n----\nALLOC 0x10-0x1f [size=16]: 0x2 (a) main a.c:7\n" ++
    "VM_ALLOC 0x0\n\nFREE 0x20: 0x2 (a) main\nBinary Images:\n").toList

def shortCalls : List Call := [.allocate 16 16 [⟨2, "main", "a.c", 7, none⟩], .release 32]

set_option maxRecDepth 4000 in
theorem shortReport_report : Report (lines shortReport)
    ["ALLOC 0x10-0x1f [size=16]: 0x2 (a) main a.c:7".toList, "VM_ALLOC 0x0".toList, [],
      "FREE 0x20: 0x2 (a) main".toList] [] :=
  ⟨⟨supportedHeader, [], rfl, List.prefix_refl _, by simp⟩, by decide⟩

theorem shortReport_calls : EventLines
    ["ALLOC 0x10-0x1f [size=16]: 0x2 (a) main a.c:7".toList, "VM_ALLOC 0x0".toList, [],
      "FREE 0x20: 0x2 (a) main".toList] shortCalls := by
  have halloc := (HistoryReader.parseAlloc_eq_ok_iff (by decide) 16 16
    [⟨2, "main", "a.c", 7, none⟩]).mp
      (rfl : HistoryReader.parseAlloc "ALLOC 0x10-0x1f [size=16]: 0x2 (a) main a.c:7".toList = _)
  have hfree := (HistoryReader.parseFree_eq_ok_iff (by decide) 32).mp
    (rfl : HistoryReader.parseFree "FREE 0x20: 0x2 (a) main".toList = _)
  have hvm : Skipped "VM_ALLOC 0x0".toList := .inr (.inl (by decide))
  exact .alloc halloc (.skip (.inl hvm) (.skip (.inl (.inl rfl)) (.free hfree .nil)))

theorem shortCalls_samples {samples : Std.ExtTreeMap Stack HeapValues}
    (h : SamplesOf shortCalls samples) (stack : Stack) (v : HeapValues) :
    samples[stack]? = some v ↔ stack = [⟨2, "main", "a.c", 7, none⟩] ∧ v = ⟨1, 16, 1, 16⟩ := by
  rw [h stack v]
  constructor
  · rintro ⟨⟨b, hb, rfl⟩, hcost, -⟩
    cases List.mem_singleton.mp hb
    exact ⟨rfl, cost_injective hcost⟩
  · rintro ⟨rfl, rfl⟩
    exact ⟨⟨_, List.mem_singleton_self _, rfl⟩, rfl, by decide⟩

/-- The one block, under the one stack. -/
theorem parse_history_exact_shortReport : ∃ order now profile,
    (∀ live, Enumerates (order live) live) ∧ parseHistory order now shortReport = .ok profile ∧
      ∀ s, s ∈ profile.samples.toList ↔
        s = ([⟨2, "main", "a.c", 7, none⟩], ⟨1, 16, 1, 16⟩) := by
  have horder : ∀ live : Std.ExtHashMap UInt64 (UInt64 × ℕ),
      Enumerates (Classical.choose (Enumerates.exists_order live)) live :=
    fun live => Classical.choose_spec (Enumerates.exists_order live)
  have hfits : CallFits [] 16 16 [⟨2, "main", "a.c", 7, none⟩] := ⟨by decide, by simp [unreleased],
    by decide⟩
  obtain ⟨tracked, profile, -, hok, -, hsamples, hkeeps⟩ :=
    (parse_history_exact _ 0 horder shortReport).2.1 _ _ _ shortReport_report shortReport_calls
      ⟨hfits, trivial⟩
  refine ⟨_, 0, profile, horder, hok, ?_⟩
  rintro ⟨stack, v⟩
  rw [hkeeps.entries.mem_iff, List.mem_map, Prod.exists]
  simp only [Std.ExtTreeMap.mem_toList_iff_getElem?_eq_some, shortCalls_samples hsamples,
    Prod.mk.injEq]
  constructor
  · rintro ⟨_, _, ⟨rfl, rfl⟩, rfl, rfl⟩
    exact ⟨rfl, rfl⟩
  · rintro ⟨rfl, rfl⟩
    exact ⟨_, _, ⟨rfl, rfl⟩, rfl, rfl⟩

end PProfessor.Heap
