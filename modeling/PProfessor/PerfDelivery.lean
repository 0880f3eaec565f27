import PProfessor.PerfRing

set_option autoImplicit false

/-!
# Perf records are consumed exactly once

The kernel appends whole records that fit between its head and the tail that was published last,
also while a drain is under way. From any head published so far, a drain consumes the records in
front of it that no earlier drain has consumed.
-/
namespace PProfessor.Perf
open ByteOrder CheckedArith RingBuffer Relation

variable (order : Order)

/-- The records appended so far, and the data area. -/
structure Kernel where
  appended : List (List UInt8)
  area : List UInt8

/-- `data_head` after the first `n` records. -/
def Kernel.headAfter (k : Kernel) (n : ℕ) : ℕ := (k.appended.take n).flatten.length

def Kernel.head (k : Kernel) : ℕ := k.appended.flatten.length

def Kernel.append (k : Kernel) (record : List UInt8) : Kernel :=
  ⟨k.appended ++ [record], store k.area k.head record⟩

structure Whole (record : List UInt8) : Prop where
  length : 8 ≤ record.length
  size : order.read (cut record 6 2) = record.length

inductive Kernel.Step (published : UInt64) : Kernel → Kernel → Prop where
  | append (k : Kernel) (record : List UInt8) (whole : Whole order record)
    (fits : (UInt64.ofNat k.head - published).toNat + record.length ≤ k.area.length) :
    Step published k (k.append record)

structure System where
  kernel : Kernel
  /-- `data_tail`. -/
  published : UInt64
  event : PerfEvent
  consumed : List (List UInt8)
  samples : List PerfSample
  /-- How many records are in front of the furthest head read. -/
  read : ℕ

def System.start (area : List UInt8) (dataSize : UInt64) : System where
  kernel := ⟨[], area⟩
  published := 0
  event := ⟨dataSize, 0⟩
  consumed := []
  samples := []
  read := 0

/-- The kernel at each slice of a drain and, from `last` on, at its end. -/
structure Kernel.During (published : UInt64) (k : Kernel) (kernels : ℕ → Kernel) (last : ℕ) :
    Prop where
  first : ReflTransGen (Step order published) k (kernels 0)
  steps : ∀ t, ReflTransGen (Step order published) (kernels t) (kernels (t + 1))
  still : ∀ t, last ≤ t → kernels t = kernels last

inductive System.Step : System → System → Prop where
  | append (s : System) (k : Kernel) (step : s.kernel.Step order s.published k) :
    Step s { s with kernel := k }
  /-- A drain that reads the head behind the first `n` records. -/
  | drain (s : System) (kernels : ℕ → Kernel) (last n : ℕ) (drained : Drained)
    (during : s.kernel.During order s.published kernels last)
    (published : n ≤ (kernels 0).appended.length)
    (result : drainSamples order (fun t => (kernels t).area)
      (.ofNat ((kernels 0).headAfter n)) s.event = some drained) :
    Step s {
      kernel := kernels last
      published := drained.event.tail
      event := drained.event
      consumed := s.consumed ++ drained.records
      samples := s.samples ++ drained.samples
      read := max s.read n }

/-- The systems that a data area of `dataSize` bytes can become. -/
def System.Reachable (dataSize : UInt64) (s : System) : Prop :=
  ∃ area : List UInt8, area.length = dataSize.toNat ∧
    ReflTransGen (Step order) (start area dataSize) s

theorem slice_holds {area xs : List UInt8} {position : ℕ} (h : Holds area position xs)
    (hfits : position % area.length + xs.length ≤ area.length) :
    slice area (position % area.length) xs.length = some xs := by
  rw [slice, if_pos hfits, cut, h.straight hfits]

theorem slice_around {area xs ys : List UInt8} {position : ℕ} (h : Holds area position (xs ++ ys))
    (hxs : position % area.length + xs.length = area.length) (hys : ys.length ≤ area.length) :
    slice area 0 ys.length = some ys := by
  rw [slice, if_pos (by omega), cut, List.drop_zero, h.around hxs hys]

/-- What the ring holds is copied, also around its end. -/
theorem copyRing_holds {area : ℕ → List UInt8} (clock : ℕ) {dataSize position : UInt64}
    {bytes : List UInt8} (hsize : ∀ t, (area t).length = dataSize.toNat)
    (hholds : ∀ t, Holds (area t) position.toNat bytes) (hpos : 0 < bytes.length)
    (hfits : bytes.length ≤ dataSize.toNat) :
    copyRing area clock dataSize position bytes.length = some bytes := by
  have hne : dataSize ≠ 0 := by
    rintro rfl
    exact absurd hfits (Nat.not_le_of_lt hpos)
  have hstart : (position % dataSize).toNat = position.toNat % dataSize.toNat :=
    UInt64.toNat_mod ..
  have hlt := Nat.mod_lt position.toNat (hpos.trans_le hfits)
  rw [copyRing, if_neg hne]
  dsimp only
  rw [hstart]
  by_cases hwrap : position.toNat % dataSize.toNat + bytes.length ≤ dataSize.toNat
  · have hfirst : min bytes.length (dataSize.toNat - position.toNat % dataSize.toNat) =
        bytes.length := min_eq_left (by omega)
    have hslice := slice_holds (hholds clock) (by rw [hsize]; exact hwrap)
    rw [hsize] at hslice
    simp only [hfirst, hslice, bind, Option.bind, lt_irrefl, if_false, pure]
  · have hfirst : min bytes.length (dataSize.toNat - position.toNat % dataSize.toNat) =
        dataSize.toNat - position.toNat % dataSize.toNat := min_eq_right (by omega)
    have hsplit := List.take_append_drop
      (dataSize.toNat - position.toNat % dataSize.toNat) bytes
    have hlength : (bytes.take (dataSize.toNat - position.toNat % dataSize.toNat)).length =
        dataSize.toNat - position.toNat % dataSize.toNat := by
      rw [List.length_take]
      omega
    have hparts (t : ℕ) : Holds (area t) position.toNat
        (bytes.take (dataSize.toNat - position.toNat % dataSize.toNat) ++
          bytes.drop (dataSize.toNat - position.toNat % dataSize.toNat)) := by
      rw [hsplit]
      exact hholds t
    have hslice := slice_holds (hparts clock).left (by rw [hsize, hlength]; omega)
    have haround := slice_around (hparts (clock + 1)) (by rw [hsize, hlength]; omega)
      (by rw [hsize, List.length_drop]; omega)
    rw [hsize, hlength] at hslice
    rw [List.length_drop] at haround
    have hmore : dataSize.toNat - position.toNat % dataSize.toNat < bytes.length := by omega
    simp only [hfirst, hslice, haround, bind, Option.bind, if_pos hmore, pure, hsplit]

/-- From the published tail on, the ring holds the records from number `read` on. -/
structure Window (tail read : ℕ) (k : Kernel) : Prop where
  whole : ∀ r ∈ k.appended, Whole order r
  inside : read ≤ k.appended.length
  starts : k.headAfter read = tail
  room : k.head ≤ tail + k.area.length
  holds : Holds k.area tail (k.appended.drop read).flatten

theorem Kernel.head_eq (k : Kernel) (n : ℕ) :
    k.head = k.headAfter n + (k.appended.drop n).flatten.length := by
  rw [head, headAfter, ← List.length_append, ← List.flatten_append, List.take_append_drop]

theorem Kernel.head_append (k : Kernel) (record : List UInt8) :
    (k.append record).head = k.head + record.length := by
  rw [head, append, List.flatten_append, List.length_append, List.flatten_singleton]
  rfl

variable {order}

theorem Window.append {tail read : ℕ} {k : Kernel} {record : List UInt8} {published : UInt64}
    (h : Window order tail read k) (htail : published.toNat = tail) (hhead : k.head < 2 ^ 64)
    (hwhole : Whole order record)
    (hfits : (UInt64.ofNat k.head - published).toNat + record.length ≤ k.area.length) :
    Window order tail read (k.append record) := by
  have hsplit := k.head_eq read
  rw [h.starts] at hsplit
  have hfree : (UInt64.ofNat k.head - published).toNat = k.head - tail := by
    have hnat : (UInt64.ofNat k.head).toNat = k.head := by
      rw [UInt64.toNat_ofNat', Nat.mod_eq_of_lt hhead]
    rw [UInt64.toNat_sub_of_le, hnat, htail]
    rw [UInt64.le_iff_toNat_le, hnat, htail]
    omega
  have hread := h.inside
  refine ⟨fun r hr => ?_, ?_, ?_, ?_, ?_⟩
  · rcases List.mem_append.mp hr with hr | hr
    · exact h.whole r hr
    · rw [List.mem_singleton.mp hr]
      exact hwhole
  · rw [Kernel.append, List.length_append]
    omega
  · rw [Kernel.headAfter, Kernel.append, List.take_append_of_le_length hread]
    exact h.starts
  · rw [Kernel.head_append, Kernel.append, length_store]
    omega
  · rw [Kernel.append, List.drop_append_of_le_length hread, List.flatten_append,
      List.flatten_singleton, hsplit]
    exact h.holds.store (by omega)

theorem Kernel.head_mono {k k' : Kernel} {published : UInt64}
    (h : ReflTransGen (Kernel.Step order published) k k') : k.head ≤ k'.head := by
  induction h with
  | refl => exact Nat.le_refl _
  | tail _ hstep ih =>
    cases hstep with
    | append record whole fits =>
      rw [head_append]
      omega

theorem Window.steps {tail read : ℕ} {k k' : Kernel} {published : UInt64}
    (h : Window order tail read k) (htail : published.toNat = tail) (hhead : k'.head < 2 ^ 64)
    (hsteps : ReflTransGen (Kernel.Step order published) k k') :
    Window order tail read k' ∧ k.appended <+: k'.appended ∧
      k'.area.length = k.area.length := by
  induction hsteps with
  | refl => exact ⟨h, List.prefix_refl _, rfl⟩
  | tail _ hstep ih =>
    cases hstep with
    | append record whole fits =>
      rw [Kernel.head_append] at hhead
      obtain ⟨hwindow, hprefix, hlength⟩ := ih (by omega)
      exact ⟨hwindow.append htail (by omega) whole fits, hprefix.trans (List.prefix_append ..),
        (length_store ..).trans hlength⟩

/-! ## One drain -/

theorem Kernel.headAfter_succ {k : Kernel} {i : ℕ} {record : List UInt8}
    (h : k.appended[i]? = some record) :
    k.headAfter (i + 1) = k.headAfter i + record.length := by
  rw [headAfter, headAfter, List.take_add_one, h, List.flatten_append, List.length_append]
  simp

theorem Kernel.headAfter_mono (k : Kernel) {i n : ℕ} (h : i ≤ n) :
    k.headAfter i ≤ k.headAfter n := by
  have hprefix : (k.appended.take i).flatten <+: (k.appended.take n).flatten := by
    obtain ⟨rest, hrest⟩ := List.take_prefix_take_left (l := k.appended) h
    exact ⟨rest.flatten, by rw [← List.flatten_append, hrest]⟩
  exact hprefix.length_le

theorem Kernel.headAfter_le (k : Kernel) (n : ℕ) : k.headAfter n ≤ k.head := by
  rw [k.head_eq n]
  omega

theorem take_append_drop_take {α : Type} (xs : List α) (m n : ℕ) :
    xs.take m ++ (xs.take n).drop m = xs.take (max m n) := by
  rcases Nat.le_total m n with hle | hle
  · have hsplit := List.take_append_drop m (xs.take n)
    rw [List.take_take, min_eq_left hle] at hsplit
    rw [max_eq_right hle, hsplit]
  · rw [List.drop_eq_nil_of_le, List.append_nil, max_eq_left hle]
    rw [List.length_take]
    omega

theorem Window.advance {tail read i : ℕ} {k : Kernel} (h : Window order tail read k) (hi : read ≤ i)
    (hinside : i ≤ k.appended.length) : Window order (k.headAfter i) i k := by
  have htake := take_append_drop_take k.appended read i
  rw [max_eq_right hi] at htake
  have hbetween : (k.appended.take i).drop read ++ k.appended.drop i = k.appended.drop read := by
    conv_rhs => rw [← List.take_append_drop i k.appended]
    rw [List.drop_append_of_le_length]
    rw [List.length_take]
    omega
  have hposition : tail + ((k.appended.take i).drop read).flatten.length = k.headAfter i := by
    rw [← h.starts, Kernel.headAfter, Kernel.headAfter, ← List.length_append,
      ← List.flatten_append, htake]
  have hroom := h.room
  have hholds := h.holds
  rw [← hbetween, List.flatten_append] at hholds
  refine ⟨h.whole, hinside, rfl, by omega, ?_⟩
  rw [← hposition]
  exact hholds.right

theorem Window.holds_record {tail read i : ℕ} {k : Kernel} {record : List UInt8}
    (h : Window order tail read k) (hi : read ≤ i) (hrecord : k.appended[i]? = some record) :
    Holds k.area (k.headAfter i) record := by
  have hlt : i < k.appended.length := (List.getElem?_eq_some_iff.mp hrecord).1
  have hrest : k.appended.drop i = record :: k.appended.drop (i + 1) := by
    rw [List.drop_eq_getElem?_toList_append, hrecord]
    rfl
  have hholds := (h.advance hi hlt.le).holds
  rw [hrest, List.flatten_cons] at hholds
  exact hholds.left

/-- The sample in a record, if it is one. -/
def sample (order : Order) (record : List UInt8) : Option PerfSample :=
  sampleOf order (.ofNat (order.read (cut record 0 4))) record

theorem Whole.lt {record : List UInt8} (h : Whole order record) : record.length < 2 ^ 16 := by
  have hlt := order.read_lt (cut record 6 2)
  have hlength : (cut record 6 2).length = 2 := length_cut h.length
  rw [h.size, hlength] at hlt
  exact hlt

theorem cut_header {record : List UInt8} {offset width : ℕ} (h : offset + width ≤ 8) :
    cut (record.take 8) offset width = cut record offset width := by
  have hheader : record.take 8 = cut record 0 8 := rfl
  rw [hheader, cut_cut h, Nat.zero_add]

/-- The kernel during a drain that starts behind record number `read`. -/
structure Draining (order : Order) (dataSize : UInt64) (tail read : ℕ) (kernels : ℕ → Kernel) :
    Prop where
  window : ∀ t, Window order tail read (kernels t)
  kept : ∀ t, (kernels 0).appended <+: (kernels t).appended
  size : ∀ t, (kernels t).area.length = dataSize.toNat
  head : (kernels 0).head < 2 ^ 64

namespace Draining
variable {dataSize : UInt64} {tail read : ℕ} {kernels : ℕ → Kernel}

theorem headAfter_eq (h : Draining order dataSize tail read kernels) {i : ℕ}
    (hi : i ≤ (kernels 0).appended.length) (t : ℕ) :
    (kernels t).headAfter i = (kernels 0).headAfter i := by
  obtain ⟨rest, hrest⟩ := h.kept t
  rw [Kernel.headAfter, Kernel.headAfter, ← hrest, List.take_append_of_le_length hi]

theorem holds_record (h : Draining order dataSize tail read kernels) {i : ℕ} (hi : read ≤ i)
    {record : List UInt8} (hrecord : (kernels 0).appended[i]? = some record) (t : ℕ) :
    Holds (kernels t).area ((kernels 0).headAfter i) record := by
  have hlt : i < (kernels 0).appended.length := (List.getElem?_eq_some_iff.mp hrecord).1
  have hlater : (kernels t).appended[i]? = some record := by
    obtain ⟨rest, hrest⟩ := h.kept t
    rw [← hrest, List.getElem?_append_left hlt, hrecord]
  have hholds := (h.window t).holds_record hi hlater
  rwa [h.headAfter_eq hlt.le] at hholds

theorem fits (h : Draining order dataSize tail read kernels) {i : ℕ} (hi : read ≤ i)
    {record : List UInt8} (hrecord : (kernels 0).appended[i]? = some record) :
    record.length ≤ dataSize.toNat := by
  have hroom := (h.window 0).room
  have hle := (kernels 0).headAfter_mono hi
  have hhead := (kernels 0).headAfter_le (i + 1)
  rw [h.size] at hroom
  rw [(h.window 0).starts] at hle
  rw [Kernel.headAfter_succ hrecord] at hhead
  omega

theorem toNat_head (h : Draining order dataSize tail read kernels) (n : ℕ) :
    (UInt64.ofNat ((kernels 0).headAfter n)).toNat = (kernels 0).headAfter n := by
  have hle := (kernels 0).headAfter_le n
  have hlt := h.head
  rw [UInt64.toNat_ofNat']
  omega

/-- From the end of record number `i`, the loop consumes the records up to the head. -/
theorem drainLoop_eq (h : Draining order dataSize tail read kernels) {n : ℕ}
    (hn : n ≤ (kernels 0).appended.length) (m : ℕ) {i : ℕ} (hm : i + m = n) (hi : read ≤ i)
    {position : UInt64} (hposition : position.toNat = (kernels 0).headAfter i) (clock : ℕ) :
    ∃ later, drainLoop order (fun t => (kernels t).area) (.ofNat ((kernels 0).headAfter n))
      ⟨dataSize, position⟩ clock =
        some ⟨((kernels 0).appended.take n).drop i,
          (((kernels 0).appended.take n).drop i).filterMap (sample order),
          ⟨dataSize, .ofNat ((kernels 0).headAfter n)⟩, later⟩ := by
  have hgap : (saturatingSubU64 (.ofNat ((kernels 0).headAfter n)) position).toNat =
      (kernels 0).headAfter n - (kernels 0).headAfter i := by
    rw [toNat_saturatingSubU64, h.toNat_head, hposition]
  induction m generalizing i position clock with
  | zero =>
    obtain rfl : i = n := hm
    have hsame : position = .ofNat ((kernels 0).headAfter i) := by
      rw [← UInt64.toNat_inj, h.toNat_head, hposition]
    rw [drainLoop, if_neg]
    · refine ⟨clock, ?_⟩
      rw [← hsame, List.drop_eq_nil_of_le (List.length_take_le ..)]
      rfl
    · rw [UInt64.le_iff_toNat_le, hgap]
      exact Nat.not_le_of_lt (by rw [Nat.sub_self]; decide)
  | succ m ih =>
    have hlt : i < (kernels 0).appended.length := by omega
    obtain ⟨record, hrecord⟩ : ∃ record, (kernels 0).appended[i]? = some record :=
      ⟨_, List.getElem?_eq_getElem hlt⟩
    have hwhole : Whole order record := (h.window 0).whole record (List.mem_of_getElem? hrecord)
    have hlarge := hwhole.length
    have hholds (t : ℕ) : Holds (kernels t).area position.toNat record :=
      hposition ▸ h.holds_record hi hrecord t
    have hheader : copyRing (fun t => (kernels t).area) clock dataSize position 8 =
        some (record.take 8) := by
      have hlength : (record.take 8).length = 8 := by
        rw [List.length_take]
        omega
      have hparts (t : ℕ) : Holds (kernels t).area position.toNat
          (record.take 8 ++ record.drop 8) := by
        rw [List.take_append_drop]
        exact hholds t
      have hcopy := copyRing_holds clock h.size (fun t => (hparts t).left)
        (by rw [hlength]; decide) (by rw [hlength]; exact hlarge.trans (h.fits hi hrecord))
      rwa [hlength] at hcopy
    have hcopy := copyRing_holds (clock + 2) h.size hholds (by omega)
      (h.fits hi hrecord)
    have hend := Kernel.headAfter_succ hrecord
    have hbound := (kernels 0).headAfter_mono (show i + 1 ≤ n by omega)
    have hsize : (UInt16.ofNat (order.read (cut (record.take 8) 6 2))).toNat = record.length := by
      rw [cut_header (by decide), hwhole.size, UInt16.toNat_ofNat', Nat.mod_eq_of_lt hwhole.lt]
    have hnot : ¬(UInt16.ofNat (order.read (cut (record.take 8) 6 2)) < 8 ∨
        saturatingSubU64 (.ofNat ((kernels 0).headAfter n)) position <
          (UInt16.ofNat (order.read (cut (record.take 8) 6 2))).toUInt64) := by
      rw [not_or, UInt16.not_lt, UInt64.not_lt, UInt16.le_iff_toNat_le, UInt64.le_iff_toNat_le,
        hgap, UInt16.toNat_toUInt64, hsize]
      exact ⟨hlarge, by omega⟩
    have hadvance : (position +
        (UInt16.ofNat (order.read (cut (record.take 8) 6 2))).toUInt64).toNat =
          (kernels 0).headAfter (i + 1) := by
      rw [(toNat_advance (UInt64.not_lt.mp (not_or.mp hnot).2) (by omega)).1, hsize, hposition,
        hend]
    obtain ⟨later, hrest⟩ := ih (i := i + 1) (by omega) (by omega) hadvance (clock + 4)
      (by rw [toNat_saturatingSubU64, h.toNat_head, hadvance])
    have hfirst : ((kernels 0).appended.take n).drop i =
        record :: ((kernels 0).appended.take n).drop (i + 1) := by
      rw [List.drop_eq_getElem?_toList_append, List.getElem?_take_of_lt (by omega), hrecord]
      rfl
    refine ⟨later, ?_⟩
    rw [drainLoop, if_pos]
    · simp only [hheader, bind, Option.bind, dif_neg hnot, hsize, hcopy, hrest, pure, hfirst,
        cut_header (show 0 + 4 ≤ 8 by decide), List.filterMap_cons]
      have hsample : sampleOf order (.ofNat (order.read (cut record 0 4))) record =
          sample order record := rfl
      rw [hsample]
      cases sample order record <;> rfl
    · rw [UInt64.le_iff_toNat_le, hgap]
      change 8 ≤ _
      omega

theorem not_overrun (h : Draining order dataSize tail read kernels) {position : UInt64}
    (hposition : position.toNat = tail) (n : ℕ) :
    ¬dataSize < saturatingSubU64 (.ofNat ((kernels 0).headAfter n)) position := by
  have hroom := (h.window 0).room
  have hle := (kernels 0).headAfter_le n
  rw [h.size] at hroom
  rw [UInt64.lt_iff_toNat_lt, toNat_saturatingSubU64, h.toNat_head, hposition]
  omega

theorem drainSamples_eq (h : Draining order dataSize tail read kernels) {n : ℕ}
    (hn : n ≤ (kernels 0).appended.length) (position : UInt64) (hposition : position.toNat = tail) :
    ∃ drained, drainSamples order (fun t => (kernels t).area) (.ofNat ((kernels 0).headAfter n))
        ⟨dataSize, position⟩ = some drained ∧
      drained.records = ((kernels 0).appended.take n).drop read ∧
      drained.samples = drained.records.filterMap (sample order) ∧
      drained.event.dataSize = dataSize ∧
      drained.event.tail.toNat = (kernels 0).headAfter (max read n) := by
  have hstarts : position.toNat = (kernels 0).headAfter read :=
    hposition.trans (h.window 0).starts.symm
  rw [drainSamples, if_neg (h.not_overrun hposition n)]
  by_cases hle : read ≤ n
  · obtain ⟨later, hdrain⟩ := h.drainLoop_eq hn (n - read) (by omega) (Nat.le_refl _) hstarts 0
    refine ⟨_, hdrain, rfl, rfl, rfl, ?_⟩
    rw [max_eq_right hle]
    exact h.toNat_head n
  · have hpast := (kernels 0).headAfter_mono (Nat.le_of_not_le hle)
    refine ⟨⟨[], [], ⟨dataSize, position⟩, 0⟩, ?_, ?_, rfl, rfl, ?_⟩
    · rw [drainLoop, if_neg]
      rw [UInt64.le_iff_toNat_le, toNat_saturatingSubU64, h.toNat_head, hstarts]
      change ¬8 ≤ _
      omega
    · refine (List.drop_eq_nil_of_le ?_).symm
      rw [List.length_take]
      omega
    · rw [max_eq_left (Nat.le_of_not_le hle)]
      exact hstarts

end Draining

namespace Kernel.During
variable {published : UInt64} {k : Kernel} {kernels : ℕ → Kernel} {last : ℕ}

theorem reaches (h : k.During order published kernels last) (t : ℕ) :
    ReflTransGen (Kernel.Step order published) k (kernels t) := by
  induction t with
  | zero => exact h.first
  | succ t ih => exact ih.trans (h.steps t)

theorem reaches_later (h : k.During order published kernels last) {t t' : ℕ} (hle : t ≤ t') :
    ReflTransGen (Kernel.Step order published) (kernels t) (kernels t') := by
  induction t', hle using Nat.le_induction with
  | base => exact .refl
  | succ t' _ ih => exact ih.trans (h.steps t')

theorem head_le (h : k.During order published kernels last) (t : ℕ) :
    (kernels t).head ≤ (kernels last).head := by
  rcases Nat.le_total t last with hle | hle
  · exact Kernel.head_mono (h.reaches_later hle)
  · rw [h.still t hle]

end Kernel.During

namespace System
variable {s s' : System} {dataSize : UInt64}

/-- What holds between the drains. -/
structure Inv (order : Order) (dataSize : UInt64) (s : System) : Prop where
  window : Window order s.event.tail.toNat s.read s.kernel
  opened : s.event.dataSize = dataSize
  size : s.kernel.area.length = dataSize.toNat
  published : s.published = s.event.tail
  consumed : s.consumed = s.kernel.appended.take s.read
  samples : s.samples = s.consumed.filterMap (sample order)

theorem start_inv {area : List UInt8} (h : area.length = dataSize.toNat) :
    (start area dataSize).Inv order dataSize where
  window := ⟨fun _ hr => (nomatch hr), Nat.le_refl _, rfl, Nat.zero_le _, holds_nil _ _⟩
  opened := rfl
  size := h
  published := rfl
  consumed := rfl
  samples := rfl

theorem Inv.draining {kernels : ℕ → Kernel} {last : ℕ} (h : s.Inv order dataSize)
    (hduring : s.kernel.During order s.published kernels last)
    (hfew : (kernels last).head < 2 ^ 64) :
    Draining order dataSize s.event.tail.toNat s.read kernels := by
  have hsteps (t : ℕ) := h.window.steps (congrArg _ h.published)
    ((hduring.head_le t).trans_lt hfew) (hduring.reaches t)
  have hlater (t : ℕ) := (hsteps 0).1.steps (congrArg _ h.published)
    ((hduring.head_le t).trans_lt hfew) (hduring.reaches_later (Nat.zero_le t))
  exact ⟨fun t => (hsteps t).1, fun t => (hlater t).2.1, fun t => (hsteps t).2.2.trans h.size,
    (hduring.head_le 0).trans_lt hfew⟩

/-- One step of the system. -/
theorem Inv.step (h : s.Inv order dataSize) (hstep : Step order s s')
    (hfew : s'.kernel.head < 2 ^ 64) : s'.Inv order dataSize := by
  cases hstep with
  | append k hk =>
    obtain ⟨hwindow, hprefix, hsize⟩ :=
      h.window.steps (congrArg _ h.published) hfew (.single hk)
    refine ⟨hwindow, h.opened, hsize.trans h.size, h.published, ?_, h.samples⟩
    obtain ⟨rest, hrest⟩ := hprefix
    change s.consumed = k.appended.take s.read
    rw [← hrest, List.take_append_of_le_length h.window.inside]
    exact h.consumed
  | drain kernels last n drained hduring hn hresult =>
    have hdraining := h.draining hduring hfew
    obtain ⟨drained', hdrain, hrecords, hsamples, hdata, htail⟩ :=
      hdraining.drainSamples_eq hn s.event.tail rfl
    have hevent : s.event = ⟨dataSize, s.event.tail⟩ := by rw [← h.opened]
    rw [hevent, hdrain] at hresult
    cases hresult
    have hinside := (hdraining.window 0).inside
    have hkept : ∀ i, i ≤ (kernels 0).appended.length →
        (kernels last).appended.take i = (kernels 0).appended.take i := by
      intro i hi
      obtain ⟨rest, hrest⟩ := hdraining.kept last
      rw [← hrest, List.take_append_of_le_length hi]
    have hmax : max s.read n ≤ (kernels 0).appended.length := max_le hinside hn
    have hconsumed : s.consumed ++ drained.records =
        (kernels last).appended.take (max s.read n) := by
      have hbefore : s.consumed = (kernels 0).appended.take s.read := by
        have hfirst := h.window.steps (congrArg _ h.published) hdraining.head hduring.first
        obtain ⟨rest, hrest⟩ := hfirst.2.1
        rw [h.consumed, ← hrest, List.take_append_of_le_length h.window.inside]
      rw [hkept _ hmax, hbefore, hrecords]
      exact take_append_drop_take ..
    refine ⟨?_, hdata, hdraining.size last, rfl, hconsumed, ?_⟩
    · change Window order drained.event.tail.toNat (max s.read n) (kernels last)
      rw [htail, ← hdraining.headAfter_eq hmax last]
      exact (hdraining.window last).advance (le_max_left ..)
        (hmax.trans (hdraining.kept last).length_le)
    · change s.samples ++ drained.samples = (s.consumed ++ drained.records).filterMap _
      rw [List.filterMap_append, ← h.samples, ← hsamples]

theorem head_mono (hstep : Step order s s') : s.kernel.head ≤ s'.kernel.head := by
  cases hstep with
  | append k hk => exact Kernel.head_mono (.single hk)
  | drain kernels last n drained hduring hn hresult =>
    exact Kernel.head_mono (hduring.reaches last)

theorem Reachable.inv (h : s.Reachable order dataSize) (hfew : s.kernel.head < 2 ^ 64) :
    s.Inv order dataSize := by
  obtain ⟨area, harea, hrun⟩ := h
  induction hrun with
  | refl => exact start_inv harea
  | tail _ hstep ih => exact (ih ((head_mono hstep).trans_lt hfew)).step hstep hfew

end System

/-- In any run of the kernel and the drains, as long as fewer than `2 ^ 64` bytes are appended in
all: the drains have consumed exactly the records in front of the furthest head read, in order
and byte for byte; the tail is not past the head; and a drain from any head published so far
reads nothing outside the data area, finds no overrun, and stops only at its head. -/
theorem drains_once {dataSize : UInt64} {s : System} (hs : s.Reachable order dataSize)
    (hfew : s.kernel.head < 2 ^ 64) :
    s.consumed = s.kernel.appended.take s.read ∧
    s.samples = s.consumed.filterMap (sample order) ∧
    s.event.tail.toNat ≤ s.kernel.head ∧
    ∀ (kernels : ℕ → Kernel) (last n : ℕ), s.kernel.During order s.published kernels last →
      (kernels last).head < 2 ^ 64 → n ≤ (kernels 0).appended.length →
      let head := UInt64.ofNat ((kernels 0).headAfter n)
      ¬s.event.dataSize < saturatingSubU64 head s.event.tail ∧
      ∃ drained, drainSamples order (fun t => (kernels t).area) head s.event = some drained ∧
        drained.records = ((kernels 0).appended.take n).drop s.read ∧
        saturatingSubU64 head drained.event.tail = 0 ∧
        drained.event.tail.toNat ≤ (kernels 0).head := by
  have hinv := hs.inv hfew
  refine ⟨hinv.consumed, hinv.samples, ?_, fun kernels last n hduring hlast hn => ?_⟩
  · rw [← hinv.window.starts]
    exact s.kernel.headAfter_le s.read
  · have hdraining := hinv.draining hduring hlast
    have hevent : s.event = ⟨dataSize, s.event.tail⟩ := by rw [← hinv.opened]
    obtain ⟨drained, hdrain, hrecords, -, -, htail⟩ :=
      hdraining.drainSamples_eq hn s.event.tail rfl
    refine ⟨?_, drained, ?_, hrecords, ?_, ?_⟩
    · rw [hinv.opened]
      exact hdraining.not_overrun rfl n
    · rw [hevent]
      exact hdrain
    · have hle := (kernels 0).headAfter_mono (le_max_right s.read n)
      rw [← UInt64.toNat_inj, toNat_saturatingSubU64, hdraining.toNat_head, htail]
      change _ = 0
      omega
    · rw [htail]
      exact (kernels 0).headAfter_le _

theorem during_const (published : UInt64) (k : Kernel) :
    k.During order published (fun _ => k) 0 := ⟨.refl, fun _ => .refl, fun _ _ => rfl⟩

namespace System
variable {s : System} {dataSize : UInt64}

theorem Reachable.append (h : s.Reachable order dataSize) (hfew : s.kernel.head < 2 ^ 64)
    {record : List UInt8} (hwhole : Whole order record)
    (hroom : s.kernel.head + record.length ≤ s.event.tail.toNat + dataSize.toNat) :
    Reachable order dataSize { s with kernel := s.kernel.append record } := by
  have hinv := h.inv hfew
  have htail : s.event.tail.toNat ≤ s.kernel.head := by
    rw [← hinv.window.starts]
    exact s.kernel.headAfter_le s.read
  have hle : s.event.tail ≤ .ofNat s.kernel.head := by
    rwa [UInt64.le_iff_toNat_le, UInt64.toNat_ofNat_of_lt' hfew]
  obtain ⟨area, harea, hrun⟩ := h
  refine ⟨area, harea, hrun.tail (.append _ _ (.append _ _ hwhole ?_))⟩
  rw [hinv.published, UInt64.toNat_sub_of_le _ _ hle, UInt64.toNat_ofNat_of_lt' hfew, hinv.size]
  omega

theorem Reachable.drain (h : s.Reachable order dataSize) (hfew : s.kernel.head < 2 ^ 64) {n : ℕ}
    (hn : n ≤ s.kernel.appended.length) : ∃ s' : System, s'.Reachable order dataSize ∧
      s'.kernel = s.kernel ∧ s'.read = max s.read n ∧
      s'.event.tail.toNat = s.kernel.headAfter (max s.read n) := by
  have hinv := h.inv hfew
  have hevent : s.event = ⟨dataSize, s.event.tail⟩ := by rw [← hinv.opened]
  obtain ⟨drained, hdrain, -, -, -, htail⟩ :=
    (hinv.draining (during_const _ _) hfew).drainSamples_eq hn s.event.tail rfl
  rw [← hevent] at hdrain
  obtain ⟨area, harea, hrun⟩ := h
  exact ⟨_, ⟨area, harea, hrun.tail (.drain _ _ 0 n drained (during_const _ _) hn hdrain)⟩, rfl,
    rfl, htail⟩

end System

/-- A sample, whose bytes are all `fill` behind the header. -/
def fillRecord (fill : UInt8) : List UInt8 := [9, 0, 0, 0, 0, 0, 24, 0] ++ List.replicate 16 fill

def emptyRecord : List UInt8 := [2, 0, 0, 0, 0, 0, 8, 0]

/-- The second record wraps around behind the first one, which has been drained. -/
theorem drains_once_smallRing : ∃ s : System, s.Reachable .little 40 ∧
    s.kernel.appended = [fillRecord 1, fillRecord 2, emptyRecord] ∧ s.consumed = [fillRecord 1] ∧
    ∃ drained, drainSamples .little (fun _ => s.kernel.area) 56 s.event = some drained ∧
      drained.records = [fillRecord 2, emptyRecord] := by
  have hwhole (fill : UInt8) : Whole .little (fillRecord fill) :=
    ⟨(by decide : 8 ≤ 24), (by decide : Order.little.read [24, 0] = 24)⟩
  have hstart : System.Reachable .little 40 (.start (List.replicate 40 0) 40) :=
    ⟨_, List.length_replicate, .refl⟩
  have hempty : (System.start (List.replicate 40 0) 40).kernel.head = 0 := rfl
  have hone := hstart.append (by rw [hempty]; norm_num) (hwhole 1) (by rw [hempty]; decide)
  have hfirst :
      ((System.start (List.replicate 40 0) 40).kernel.append (fillRecord 1)).head = 24 := by
    rw [Kernel.head_append, hempty]
    rfl
  obtain ⟨s, hs, hkernel, hread, htail⟩ := hone.drain (n := 1) (by rw [hfirst]; norm_num)
    (Nat.le_refl 1)
  have happended : s.kernel.appended = [fillRecord 1] := by rw [hkernel]; rfl
  have hhead : s.kernel.head = 24 := by rw [Kernel.head, happended]; rfl
  have htail' : s.event.tail.toNat = 24 := htail
  have htwo := hs.append (by rw [hhead]; norm_num) (hwhole 2) (by rw [hhead, htail']; decide)
  have hhead₂ : (s.kernel.append (fillRecord 2)).head = 48 := by
    rw [Kernel.head_append, hhead]
    rfl
  have hheader : Whole .little emptyRecord := ⟨Nat.le_refl 8, by decide⟩
  have hthree := htwo.append (by rw [hhead₂]; norm_num) hheader (by rw [hhead₂, htail']; decide)
  have hhead₃ : ((s.kernel.append (fillRecord 2)).append emptyRecord).head = 56 := by
    rw [Kernel.head_append, hhead₂]
    rfl
  have hall : ((s.kernel.append (fillRecord 2)).append emptyRecord).appended =
      [fillRecord 1, fillRecord 2, emptyRecord] := by
    rw [Kernel.append, Kernel.append, happended]
    rfl
  have hfew : ((s.kernel.append (fillRecord 2)).append emptyRecord).head < 2 ^ 64 := by
    rw [hhead₃]
    norm_num
  obtain ⟨hconsumed, -, -, hdrains⟩ := drains_once hthree hfew
  obtain ⟨-, drained, hdrain, hrecords, -⟩ :=
    hdrains _ 0 3 (during_const _ _) hfew (by rw [hall]; rfl)
  rw [hread, hall] at hconsumed hrecords
  refine ⟨_, hthree, hall, hconsumed, drained, ?_, hrecords⟩
  rw [← hdrain, Kernel.headAfter, hall]
  rfl

def largeRecord : List UInt8 := [0, 0, 0, 0, 0, 0, 0, 128] ++ List.replicate 32760 0

theorem length_largeRecord : largeRecord.length = 32768 := by
  rw [largeRecord, List.length_append, List.length_replicate]
  rfl

theorem largeRecord_whole : Whole .little largeRecord where
  length := by
    rw [length_largeRecord]
    decide
  size := by
    rw [length_largeRecord]
    rfl

theorem head_of_replicate {k : Kernel} {n : ℕ} (h : k.appended = List.replicate n largeRecord) :
    k.head = n * 32768 := by
  rw [Kernel.head, h, List.length_flatten, List.map_replicate, length_largeRecord,
    List.sum_replicate, smul_eq_mul]

theorem append_replicate {k : Kernel} {n : ℕ} (h : k.appended = List.replicate n largeRecord) :
    (k.append largeRecord).appended = List.replicate (n + 1) largeRecord := by
  rw [Kernel.append, h, List.replicate_succ']

theorem System.Reachable.append_large {s : System} {n : ℕ} (h : s.Reachable .little 32768)
    (hall : s.kernel.appended = List.replicate n largeRecord) (hread : s.read = n)
    (hfew : n * 32768 < 2 ^ 64) :
    System.Reachable .little 32768 { s with kernel := s.kernel.append largeRecord } := by
  have hhead := (head_of_replicate hall).trans_lt hfew
  have htail : s.event.tail.toNat = s.kernel.head := by
    rw [← (h.inv hhead).window.starts, hread, Kernel.headAfter, hall,
      List.take_of_length_le List.length_replicate.le, ← hall]
    rfl
  exact h.append hhead largeRecord_whole (by rw [htail, length_largeRecord]; exact Nat.le_refl _)

theorem rounds (n : ℕ) (hn : n * 32768 < 2 ^ 64) : ∃ s : System, s.Reachable .little 32768 ∧
    s.kernel.appended = List.replicate n largeRecord ∧ s.read = n := by
  induction n with
  | zero =>
    exact ⟨.start (List.replicate 32768 0) 32768, ⟨_, List.length_replicate, .refl⟩, rfl, rfl⟩
  | succ n ih =>
    have hless : n * 32768 < 2 ^ 64 := (Nat.mul_le_mul_right _ (Nat.le_succ n)).trans_lt hn
    obtain ⟨s, hs, hall, hread⟩ := ih hless
    have hmore := append_replicate hall
    obtain ⟨s', hs', hkernel, hread', -⟩ := (hs.append_large hall hread hless).drain (n := n + 1)
      ((head_of_replicate hmore).trans_lt hn) (by rw [hmore, List.length_replicate])
    refine ⟨s', hs', by rw [hkernel, hmore], ?_⟩
    rw [hread', hread, max_eq_right (Nat.le_succ n)]

/-- At `2 ^ 64` bytes the head starts again at zero, and a drain that reads it consumes
nothing. -/
theorem drains_once_wrapped : ¬∀ s : System, s.Reachable .little 32768 →
    s.consumed = s.kernel.appended.take s.read := by
  intro hclaim
  obtain ⟨n, hn⟩ : ∃ n, n * 32768 + 32768 = 2 ^ 64 := ⟨2 ^ 49 - 1, by norm_num⟩
  have hfew : n * 32768 < 2 ^ 64 := by
    rw [← hn]
    exact Nat.lt_add_of_pos_right (by decide)
  obtain ⟨s, hs, hall, hread⟩ := rounds n hfew
  have happended := hs.append_large hall hread hfew
  have hmore := append_replicate hall
  have hlength : n + 1 ≤ (s.kernel.append largeRecord).appended.length := by
    rw [hmore, List.length_replicate]
  have hzero : UInt64.ofNat ((s.kernel.append largeRecord).headAfter (n + 1)) = 0 := by
    have hhead : (s.kernel.append largeRecord).headAfter (n + 1) = 2 ^ 64 := by
      rw [Kernel.headAfter, List.take_of_length_le (by rw [hmore, List.length_replicate])]
      exact (head_of_replicate hmore).trans ((Nat.succ_mul n 32768).trans hn)
    rw [hhead]
    rfl
  have hgap : saturatingSubU64 0 s.event.tail = 0 := by
    rw [← UInt64.toNat_inj, toNat_saturatingSubU64]
    exact Nat.zero_sub _
  have hdrain : drainSamples .little (fun _ => (s.kernel.append largeRecord).area)
      (.ofNat ((s.kernel.append largeRecord).headAfter (n + 1))) s.event =
        some ⟨[], [], s.event, 0⟩ := by
    rw [hzero, drainSamples, hgap, if_neg, drainLoop, hgap, if_neg (by decide)]
    exact UInt64.not_lt.mpr (UInt64.zero_le)
  obtain ⟨area, harea, hrun⟩ := happended
  have hlate := hclaim _ ⟨area, harea, hrun.tail
    (.drain _ _ 0 (n + 1) _ (during_const _ _) hlength hdrain)⟩
  change s.consumed ++ [] =
    (s.kernel.append largeRecord).appended.take (max s.read (n + 1)) at hlate
  have hconsumed := hclaim s hs
  rw [List.append_nil, hconsumed, hread, max_eq_right (Nat.le_succ n), hmore, hall,
    List.take_replicate, List.take_replicate, min_self, min_self] at hlate
  have hlengths := congrArg List.length hlate
  rw [List.length_replicate, List.length_replicate] at hlengths
  omega

end PProfessor.Perf
