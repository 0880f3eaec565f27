import PProfessor.HeapLog

set_option autoImplicit false

/-!
# The native recorder

The wrappers of `src/heap/recorder.c` around the glibc allocator, one step of one
thread at a time, from `begin` on and up to `finish`, in the process that owns
the log. Addresses and sizes are words; the null pointer is zero.
-/
namespace PProfessor.Recorder
open Heap

inductive LibcCall where
  | malloc (size : UInt64)
  | calloc (n size : UInt64)
  | free (p : UInt64)
  | realloc (old size : UInt64)
  | memalign (alignment size : UInt64)
  | alignedAlloc (alignment size : UInt64)
  deriving DecidableEq, Repr

inductive Request where
  | malloc (size : UInt64)
  | calloc (n size : UInt64)
  | free (p : UInt64)
  | realloc (old size : UInt64)
  | reallocarray (p n size : UInt64)
  | memalign (alignment size : UInt64)
  | alignedAlloc (alignment size : UInt64)
  | posixMemalign (alignment size : UInt64)
  | valloc (size : UInt64)
  | pvalloc (size : UInt64)
  | cfree (p : UInt64)
  deriving DecidableEq, Repr

def sizeMax : UInt64 := 0xFFFFFFFFFFFFFFFF

def reallocarray (p n size : UInt64) : Option LibcCall :=
  if size ≠ 0 ∧ n > sizeMax / size then none else some (.realloc p (n * size))

def posixMemalign (alignment size : UInt64) : Option LibcCall :=
  if alignment < 8 ∨ alignment &&& (alignment - 1) ≠ 0 then none
  else some (.memalign alignment size)

def pvalloc (page size : UInt64) : Option LibcCall :=
  if size > sizeMax - (page - 1) then none
  else some (.memalign page ((size + page - 1) &&& ~~~(page - 1)))

/-- The call that a wrapper makes, unless it refuses the arguments. `page` is the
page size, and `alignedImpl` whether `aligned_alloc` was found. -/
def Request.call (page : UInt64) (alignedImpl : Bool) : Request → Option LibcCall
  | .malloc size => some (.malloc size)
  | .calloc n size => some (.calloc n size)
  | .free p => some (.free p)
  | .realloc old size => some (.realloc old size)
  | .reallocarray p n size => Recorder.reallocarray p n size
  | .memalign alignment size => some (.memalign alignment size)
  | .alignedAlloc alignment size =>
    if alignedImpl then some (.alignedAlloc alignment size) else some (.memalign alignment size)
  | .posixMemalign alignment size => Recorder.posixMemalign alignment size
  | .valloc size => some (.memalign page size)
  | .pvalloc size => Recorder.pvalloc page size
  | .cfree p => some (.free p)

/-- The record that `record` writes; `trace` is what `backtrace` finds. -/
def record (kind p old size : UInt64) (trace : List UInt64) : Event :=
  let pcs := if kind = 1 ∨ kind = 3 then (trace.take 64).drop 2 else []
  { kind
    address := p
    oldAddress := old
    size
    depth := .ofNat pcs.length
    pcs := pcs ++ List.replicate (64 - pcs.length) 0 }

/-- What a wrapper records of a call that returned `p`; `usable` is
`malloc_usable_size(p)`. -/
def LibcCall.record (p usable : UInt64) (trace : List UInt64) : LibcCall → Option Event
  | .free q => if q ≠ 0 then some (Recorder.record 2 q 0 0 trace) else none
  | .realloc old size =>
    if p ≠ 0 ∨ size = 0 then
      some (Recorder.record 3 p old (if p ≠ 0 then usable else 0) trace)
    else none
  | _ => if p ≠ 0 then some (Recorder.record 1 p 0 usable trace) else none

/-- An allocated block: its last recorded size, if its allocation was recorded,
and whether the call that allocated it was skipped by the recursion guard. -/
structure Chunk where
  recorded : Option UInt64
  skipped : Bool
  deriving DecidableEq, Repr

abbrev Chunks := Std.ExtHashMap UInt64 Chunk

def LibcCall.effect (p : UInt64) (chunk : Chunk) (chunks : Chunks) : LibcCall → Chunks
  | .free q => chunks.erase q
  | .realloc old size =>
    if p ≠ 0 then (chunks.erase old).insert p chunk
    else if size = 0 then chunks.erase old
    else chunks
  | _ => if p ≠ 0 then chunks.insert p chunk else chunks

def LibcCall.frees : LibcCall → UInt64
  | .free p => p
  | .realloc old _ => old
  | _ => 0

/-- The allocator does not return an address that is allocated; `realloc` may
return the block it is given. -/
def LibcCall.MayReturn (p : UInt64) (chunks : Chunks) : LibcCall → Prop
  | .free _ => p = 0
  | .realloc old _ => p ∉ chunks.erase old
  | _ => p ∉ chunks

/-- Where a thread stands in a wrapper. It is inside from `entering` on. -/
inductive Pc where
  | idle
  | entering (call : LibcCall)
  | locked (call : LibcCall)
  | returned (call : LibcCall) (p usable : UInt64)
  /-- In `free`: the record is written, the block is not freed yet. -/
  | freeing (p : UInt64)
  | leaving
  deriving DecidableEq, Repr

structure State (ThreadId : Type) where
  chunks : Chunks
  pc : ThreadId → Pc
  lock : Option ThreadId
  log : List Event
  /-- `header[3]`. -/
  status : UInt64

section
variable {ThreadId : Type} [DecidableEq ThreadId]

def State.goto (s : State ThreadId) (t : ThreadId) (pc : Pc) : State ThreadId :=
  { s with pc := Function.update s.pc t pc }

/-- The record reaches the log, or the log is marked as incomplete. -/
def State.append (s : State ThreadId) (e : Event) (written : Bool) : State ThreadId :=
  if written then { s with log := s.log ++ [e] } else { s with status := 1 }

def State.mark (s : State ThreadId) (e : Event) (written : Bool) : State ThreadId :=
  if written ∧ e.address ≠ 0 then
    { s with chunks := s.chunks.insert e.address ⟨some e.size, false⟩ }
  else s

inductive Step : State ThreadId → State ThreadId → Prop where
  | enter {s : State ThreadId} (t : ThreadId) (request : Request) (page : UInt64)
      (alignedImpl : Bool) (call : LibcCall) :
      s.pc t = .idle → request.call page alignedImpl = some call →
      Step s (s.goto t (.entering call))
  | acquire {s : State ThreadId} (t : ThreadId) (call : LibcCall) :
      s.pc t = .entering call → s.lock = none →
      Step s ({ s with lock := some t }.goto t (.locked call))
  | libc {s : State ThreadId} (t : ThreadId) (call : LibcCall) (p usable : UInt64) :
      s.pc t = .locked call → (∀ q, call ≠ .free q) → call.MayReturn p s.chunks →
      Step s ({ s with chunks := call.effect p ⟨none, false⟩ s.chunks }.goto t
        (.returned call p usable))
  | record {s : State ThreadId} (t : ThreadId) (call : LibcCall) (p usable : UInt64)
      (trace : List UInt64) (e : Event) (written : Bool) :
      s.pc t = .returned call p usable → call.record p usable trace = some e →
      Step s (((s.append e written).mark e written).goto t .leaving)
  | unrecorded {s : State ThreadId} (t : ThreadId) (call : LibcCall) (p usable : UInt64)
      (trace : List UInt64) :
      s.pc t = .returned call p usable → call.record p usable trace = none →
      Step s (s.goto t .leaving)
  | recordFree {s : State ThreadId} (t : ThreadId) (q : UInt64) (trace : List UInt64) (e : Event)
      (written : Bool) :
      s.pc t = .locked (.free q) → LibcCall.record 0 0 trace (.free q) = some e →
      Step s ((s.append e written).goto t (.freeing q))
  | unrecordedFree {s : State ThreadId} (t : ThreadId) (q : UInt64) (trace : List UInt64) :
      s.pc t = .locked (.free q) → LibcCall.record 0 0 trace (.free q) = none →
      Step s (s.goto t (.freeing q))
  | libcFree {s : State ThreadId} (t : ThreadId) (q : UInt64) :
      s.pc t = .freeing q →
      Step s ({ s with chunks := LibcCall.effect 0 ⟨none, false⟩ s.chunks (.free q) }.goto t
        .leaving)
  | leave {s : State ThreadId} (t : ThreadId) :
      s.pc t = .leaving → Step s ({ s with lock := none }.goto t .idle)
  /-- A call of a thread that is inside goes to glibc only, and frees only what
  such calls allocated. -/
  | skip {s : State ThreadId} (t : ThreadId) (call : LibcCall) (p : UInt64) :
      s.pc t ≠ .idle → call.MayReturn p s.chunks →
      (call.frees = 0 ∨ ∃ chunk, s.chunks[call.frees]? = some chunk ∧ chunk.skipped = true) →
      Step s { s with chunks := call.effect p ⟨none, true⟩ s.chunks }

def initial (chunks : Chunks) : State ThreadId :=
  ⟨chunks, fun _ => .idle, none, [], 0⟩

/-- The blocks of the program before `begin`. -/
def Unrecorded (chunks : Chunks) : Prop :=
  0 ∉ chunks ∧ ∀ (a : UInt64) (chunk : Chunk), chunks[a]? = some chunk → chunk.recorded = none

def Reachable (s : State ThreadId) : Prop :=
  ∃ chunks, Unrecorded chunks ∧ Relation.ReflTransGen Step (initial chunks) s

end

end PProfessor.Recorder
