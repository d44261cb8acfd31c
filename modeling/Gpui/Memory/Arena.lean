import Gpui.Lib.Exec

/-! # The arena of elements: the model

    Values are placed in chunks of memory, one after the other, and are dropped together.  The
    arena does not hand out references but boxes, which share a flag with the boxes of their
    generation: when the values are dropped, the flag is cleared and a new one is made.

    Addresses are numbers.  Where the next chunk lies is up to the allocator. -/

namespace Gpui

namespace ElementArena

inductive Failure where
  /-- `NonZeroUsize::try_from(0).unwrap()` -/
  | zeroChunkSize
  /-- "Arena::end_scope called without a matching begin_scope" -/
  | noActiveScope
  /-- "Arena chunk_size of {} is too small to allocate {} bytes" -/
  | tooSmall (chunkSize size : Nat)
  | indexOutOfRange
  | assertFailed
  /-- "attempted to dereference an ArenaRef after its Arena was cleared" -/
  | cleared
  /-- `handle_alloc_error` -/
  | outOfMemory
deriving DecidableEq, Repr

/-- The size and the alignment of a type. -/
structure Layout where
  size : Nat
  align : Nat
  powerOfTwo : ∃ k, align = 2 ^ k

/-- The memory that the chunks of one size are taken from: the start of each chunk, as long as
    there is memory left. -/
structure Allocator (usizeMax chunkSize : Nat) where
  starts : Nat → Option Nat
  notNull : ∀ n start, starts n = some start → start ≠ 0
  bounded : ∀ n start, starts n = some start → start + chunkSize ≤ usizeMax
  disjoint : ∀ m n start start', m ≠ n → starts m = some start → starts n = some start' →
    start + chunkSize ≤ start' ∨ start' + chunkSize ≤ start

/-! ### Section 1: Chunks -/

structure Chunk where
  start : Nat
  stop : Nat
  offset : Nat
deriving DecidableEq, Repr

def checkedAdd (usizeMax a b : Nat) : Option Nat :=
  if a + b ≤ usizeMax then some (a + b) else none

/-- What must be added to an address to align it. -/
def alignOffset (addr align : Nat) : Nat := (align - addr % align) % align

/-- `NonNull::new` -/
def nonNull (addr : Nat) : Option Nat := if addr = 0 then none else some addr

namespace Chunk

/-- The `n`th chunk. -/
def new {usizeMax chunkSize : Nat} (memory : Allocator usizeMax chunkSize) (n : Nat) :
    Except Failure Chunk :=
  match memory.starts n with
  | none       => .error .outOfMemory
  | some start => .ok ⟨start, start + chunkSize, start⟩

/-- The address, if the value fits, and the chunk afterwards. -/
def allocate (usizeMax : Nat) (chunk : Chunk) (layout : Layout) : Option Nat × Chunk :=
  match checkedAdd usizeMax chunk.offset (alignOffset chunk.offset layout.align) with
  | none => (none, chunk)
  | some alignedAddr =>
      match checkedAdd usizeMax alignedAddr layout.size with
      | none => (none, chunk)
      | some nextAddr =>
          if nextAddr ≤ chunk.stop then
            (nonNull alignedAddr, { chunk with offset := nextAddr })
          else (none, chunk)

def reset (chunk : Chunk) : Chunk := { chunk with offset := chunk.start }

end Chunk

/-! ### Section 2: The arena -/

/-- A value to be dropped, the `id`th one. -/
structure ArenaElement where
  value : Nat
  id : Nat
deriving DecidableEq, Repr

structure Arena where
  chunks : List Chunk
  elements : List ArenaElement
  /-- The flag of this generation. -/
  valid : Nat
  currentChunkIndex : Nat
  chunkSize : Nat
  scopeDepth : Nat

/-- A box of a value with this layout. -/
structure ArenaBox where
  ptr : Nat
  layout : Layout
  valid : Nat

structure State where
  arena : Arena
  /-- The flags, which the boxes hold too. -/
  cells : List Bool
  /-- The boxes that were returned. -/
  boxes : List ArenaBox
  /-- The values that were dropped. -/
  dropped : List Nat

def getChunk (chunks : List Chunk) (index : Nat) : Except Failure Chunk :=
  match chunks[index]? with
  | none       => .error .indexOutOfRange
  | some chunk => .ok chunk

variable {usizeMax chunkSize : Nat} (memory : Allocator usizeMax chunkSize)

def new : Except Failure State :=
  if chunkSize = 0 then .error .zeroChunkSize
  else do
    let chunk ← Chunk.new memory 0
    .ok {
      arena := {
        chunks := [chunk]
        elements := []
        valid := 0
        currentChunkIndex := 0
        chunkSize := chunkSize
        scopeDepth := 0 }
      cells := [true]
      boxes := []
      dropped := [] }

/-- A new chunk if there is none at the current index. -/
def pushChunk (arena : Arena) : Except Failure (List Chunk) :=
  if arena.chunks.length ≤ arena.currentChunkIndex then do
    let chunk ← Chunk.new memory arena.chunks.length
    if arena.currentChunkIndex = (arena.chunks ++ [chunk]).length - 1 then
      .ok (arena.chunks ++ [chunk])
    else .error .assertFailed
  else .ok arena.chunks

/-- Where a value is placed, and the arena afterwards. -/
def place (arena : Arena) (layout : Layout) : Except Failure (Nat × Arena) := do
  let currentChunk ← getChunk arena.chunks arena.currentChunkIndex
  let tried := currentChunk.allocate usizeMax layout
  let arena := { arena with chunks := arena.chunks.set arena.currentChunkIndex tried.2 }
  match tried.1 with
  | some ptr => .ok (ptr, arena)
  | none =>
      let arena := { arena with currentChunkIndex := arena.currentChunkIndex + 1 }
      let chunks ← pushChunk memory arena
      let currentChunk ← getChunk chunks arena.currentChunkIndex
      let tried := currentChunk.allocate usizeMax layout
      match tried.1 with
      | some ptr =>
          .ok (ptr, { arena with chunks := chunks.set arena.currentChunkIndex tried.2 })
      | none => .error (.tooSmall arena.chunkSize layout.size)

def alloc (s : State) (layout : Layout) : Except Failure State := do
  let placed ← place memory s.arena layout
  .ok { s with
    arena := { placed.2 with
      elements := placed.2.elements ++ [⟨placed.1, s.boxes.length⟩] }
    boxes := s.boxes ++ [⟨placed.1, layout, placed.2.valid⟩] }

def beginScope (s : State) : State :=
  { s with arena := { s.arena with scopeDepth := s.arena.scopeDepth + 1 } }

def endScope (s : State) : Except Failure State :=
  if s.arena.scopeDepth = 0 then .error .noActiveScope
  else .ok { s with arena := { s.arena with scopeDepth := s.arena.scopeDepth - 1 } }

/-- Resets the chunks from one index up to another. -/
def resetChunks (chunks : List Chunk) : List Nat → Except Failure (List Chunk)
  | [] => .ok chunks
  | index :: rest => do
      let chunk ← getChunk chunks index
      resetChunks (chunks.set index chunk.reset) rest

def forceClear (s : State) : Except Failure State := do
  let chunks ← resetChunks s.arena.chunks (List.range (s.arena.currentChunkIndex + 1))
  .ok { s with
    arena := { s.arena with
      chunks := chunks
      elements := []
      valid := s.cells.length
      currentChunkIndex := 0 }
    cells := s.cells.set s.arena.valid false ++ [true]
    dropped := s.dropped ++ s.arena.elements.map (·.id) }

def clear (s : State) : Except Failure State :=
  if s.arena.scopeDepth = 0 then forceClear s else .ok s

/-- The arena is dropped. -/
def drop (s : State) : Except Failure State := forceClear s

/-! ### Section 3: Boxes -/

namespace ArenaBox

def validate (s : State) (box : ArenaBox) : Except Failure Unit :=
  if s.cells[box.valid]? = some true then .ok () else .error .cleared

/-- The address that is read. -/
def deref (s : State) (box : ArenaBox) : Except Failure Nat := do
  box.validate s
  .ok box.ptr

/-- A box of a part of the value, which lies `offset` bytes behind its start. -/
def map (s : State) (box : ArenaBox) (offset : Nat) (layout : Layout) :
    Except Failure ArenaBox := do
  let ptr ← box.deref s
  .ok ⟨ptr + offset, layout, box.valid⟩

end ArenaBox

/-! ### Section 4: Runs -/

inductive Op where
  | alloc (layout : Layout)
  | beginScope
  | endScope
  | clear

def step (s : State) : Op → Except Failure State
  | .alloc layout => alloc memory s layout
  | .beginScope   => .ok (beginScope s)
  | .endScope     => endScope s
  | .clear        => clear s

def run (ops : List Op) : Except Failure State := do
  let s ← new memory
  ops.foldlM (step memory) s

end ElementArena

end Gpui
