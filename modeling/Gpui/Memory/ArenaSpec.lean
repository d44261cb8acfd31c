import Gpui.Memory.Arena

/-! # The arena of elements: the values that it holds

    What a value can expect is said of the operations alone: it lives from its allocation to
    the first clear behind it that is outside of all scopes.

    * **`arena_sound`**: after all balanced operations, values are aligned, those that live lie
      in chunks and apart from each other, a clear inside of a scope changes nothing, and values
      are dropped once and have boxes that can be read as long as they live. -/

namespace Gpui

open List

open Exec (ok_bind)

namespace ElementArena

variable {usizeMax chunkSize : Nat} {memory : Allocator usizeMax chunkSize}

/-! ### Section 1: Operations -/

def depthAfter (depth : Nat) : Op → Nat
  | .beginScope => depth + 1
  | .endScope   => depth - 1
  | _           => depth

/-- The number of open scopes. -/
def depth (ops : List Op) : Nat := ops.foldl depthAfter 0

/-- The layouts of the values, in the order of their allocations. -/
def layouts (ops : List Op) : List Layout :=
  ops.filterMap (fun op => match op with
    | .alloc layout => some layout
    | _ => none)

/-- No scope is ended that was not begun. -/
def Balanced (ops : List Op) : Prop :=
  ∀ before after, ops = before ++ .endScope :: after → depth before ≠ 0

/-- All values fit into an empty chunk, wherever it lies. -/
def FitEmpty (memory : Allocator usizeMax chunkSize) (ops : List Op) : Prop :=
  ∀ layout ∈ layouts ops, ∀ n start, memory.starts n = some start →
    start + alignOffset start layout.align + layout.size ≤ start + chunkSize

/-- The value was allocated before a clear outside of all scopes. -/
def Cleared (ops : List Op) (value : Nat) : Prop :=
  ∃ before after, ops = before ++ .clear :: after ∧ depth before = 0 ∧
    value < (layouts before).length

/-- At some moment `n` values lived. -/
def Peak (ops : List Op) (n : Nat) : Prop :=
  ∃ before after first, ops = before ++ after ∧ first + n ≤ (layouts before).length ∧
    ∀ value, first ≤ value → ¬ Cleared before value

def Apart (addr size addr' size' : Nat) : Prop :=
  addr + size ≤ addr' ∨ addr' + size' ≤ addr

/-- The box that was returned for a value. -/
def Boxed (s : State) (value : Nat) (box : ArenaBox) : Prop := s.boxes[value]? = some box

/-- The values lie apart from each other. -/
def ArenaBox.Apart (box box' : ArenaBox) : Prop :=
  ElementArena.Apart box.ptr box.layout.size box'.ptr box'.layout.size

/-- What holds after some operations. -/
structure Sound (memory : Allocator usizeMax chunkSize) (ops : List Op) (s : State) : Prop where
  layouts  : s.boxes.map (·.layout) = layouts ops
  chunks   : ∀ n (chunk : Chunk), s.arena.chunks[n]? = some chunk →
    memory.starts n = some chunk.start ∧ chunk.stop = chunk.start + chunkSize
  aligned  : ∀ value box, Boxed s value box → box.layout.align ∣ box.ptr
  inChunk  : ∀ value box, Boxed s value box → ¬ Cleared ops value →
    ∃ chunk ∈ s.arena.chunks, chunk.start ≤ box.ptr ∧ box.ptr + box.layout.size ≤ chunk.stop
  disjoint : ∀ value value' box box', value ≠ value' → Boxed s value box → Boxed s value' box' →
    ¬ Cleared ops value → ¬ Cleared ops value' → box.Apart box'
  deferred : depth ops ≠ 0 → clear s = .ok s
  dropped  : ∀ value box, Boxed s value box →
    (Cleared ops value → s.dropped.count value = 1) ∧
      (¬ Cleared ops value → s.dropped.count value = 0)
  readable : ∀ value box, Boxed s value box →
    (box.deref s = .ok box.ptr ↔ ¬ Cleared ops value)
  /-- When the arena is dropped, so is every value that was not before. -/
  atDrop   : ∃ s', drop s = .ok s' ∧ ∀ value box, Boxed s value box →
    s'.dropped.count value = 1 ∧ box.deref s' = .error .cleared

/-! ### Section 2: Operations, one after the other -/

theorem depth_concat (ops : List Op) (op : Op) :
    depth (ops ++ [op]) = depthAfter (depth ops) op := by
  unfold depth
  rw [foldl_append]
  rfl

theorem layouts_append (ops ops' : List Op) : layouts (ops ++ ops') = layouts ops ++ layouts ops' :=
  filterMap_append

variable {ops : List Op} {op : Op} {value : Nat} {arena : Arena} {layout : Layout} {s : State}
variable {box : ArenaBox}

theorem Balanced.of_concat (h : Balanced (ops ++ [op])) :
    Balanced ops := by
  intro before after heq
  apply h before (after ++ [op])
  rw [heq, append_assoc, cons_append]

theorem Balanced.endScope (h : Balanced (ops ++ [.endScope])) : depth ops ≠ 0 :=
  h ops [] rfl

theorem FitEmpty.of_concat (h : FitEmpty memory (ops ++ [op])) :
    FitEmpty memory ops := by
  intro layout hlayout
  apply h layout
  rw [layouts_append]
  exact mem_append_left _ hlayout

theorem Peak.concat {n : Nat} (h : Peak ops n) : Peak (ops ++ [op]) n := by
  obtain ⟨before, after, first, rfl, hcount, hlive⟩ := h
  exact ⟨before, after ++ [op], first, append_assoc .., hcount, hlive⟩

theorem not_cleared_nil : ¬ Cleared [] value := by
  intro h
  obtain ⟨before, after, heq, _⟩ := h
  cases before <;> cases heq

/-- A value is cleared by the last operation or was before. -/
theorem cleared_concat :
    Cleared (ops ++ [op]) value ↔
      Cleared ops value ∨ op = .clear ∧ depth ops = 0 ∧ value < (layouts ops).length := by
  constructor
  · intro h
    obtain ⟨before, after, heq, hdepth, hvalue⟩ := h
    cases hafter : after.reverse with
    | nil =>
      rw [reverse_eq_nil_iff] at hafter
      rw [hafter] at heq
      obtain ⟨hbefore, hop⟩ := append_inj' heq rfl
      cases hop
      rw [← hbefore] at hdepth hvalue
      exact .inr ⟨rfl, hdepth, hvalue⟩
    | cons last init =>
      rw [reverse_eq_cons_iff] at hafter
      rw [hafter, ← cons_append, ← append_assoc] at heq
      obtain ⟨hbefore, _⟩ := append_inj' heq rfl
      exact .inl ⟨before, init.reverse, hbefore, hdepth, hvalue⟩
  · intro h
    obtain ⟨before, after, rfl, hdepth, hvalue⟩ | ⟨rfl, hdepth, hvalue⟩ := h
    · exact ⟨before, after ++ [op], by simp, hdepth, hvalue⟩
    · exact ⟨ops, [], rfl, hdepth, hvalue⟩

/-! ### Section 3: Chunks -/

theorem align_dvd_add_alignOffset {align : Nat} (addr : Nat) (halign : 0 < align) :
    align ∣ addr + alignOffset addr align := by
  unfold alignOffset
  have hlt := Nat.mod_lt addr halign
  by_cases hzero : addr % align = 0
  · rw [hzero, Nat.sub_zero, Nat.mod_self, Nat.add_zero]
    exact Nat.dvd_of_mod_eq_zero hzero
  · rw [Nat.mod_eq_of_lt (by omega : align - addr % align < align)]
    apply Nat.dvd_of_mod_eq_zero
    have hsplit : addr + (align - addr % align) = align * (addr / align + 1) := by
      have hdiv := Nat.div_add_mod addr align
      rw [Nat.mul_add, Nat.mul_one]
      omega
    rw [hsplit, Nat.mul_mod_right]

theorem Layout.align_pos (layout : Layout) : 0 < layout.align := by
  obtain ⟨k, hk⟩ := layout.powerOfTwo
  rw [hk]
  exact Nat.two_pow_pos k

/-- The chunk behaves like a region of memory. -/
structure Chunk.Valid (memory : Allocator usizeMax chunkSize) (n : Nat) (chunk : Chunk) :
    Prop where
  start : memory.starts n = some chunk.start
  stop  : chunk.stop = chunk.start + chunkSize
  low   : chunk.start ≤ chunk.offset
  high  : chunk.offset ≤ chunk.stop

theorem Chunk.Valid.notNull {n : Nat} {chunk : Chunk} (h : chunk.Valid memory n) :
    chunk.offset ≠ 0 := by
  have hstart := memory.notNull n _ h.start
  have hlow := h.low
  omega

/-- A value is placed behind the others, or there is no room for it. -/
theorem allocate_cases {n : Nat} {chunk : Chunk} (h : chunk.Valid memory n) (layout : Layout) :
    (∃ ptr, ptr = chunk.offset + alignOffset chunk.offset layout.align ∧
        ptr + layout.size ≤ chunk.stop ∧
        chunk.allocate usizeMax layout =
          (some ptr, { chunk with offset := ptr + layout.size })) ∨
      (chunk.stop < chunk.offset + alignOffset chunk.offset layout.align + layout.size ∧
        chunk.allocate usizeMax layout = (none, chunk)) := by
  have hbounded := memory.bounded n _ h.start
  rw [← h.stop] at hbounded
  have hnull := h.notNull
  unfold Chunk.allocate checkedAdd nonNull
  by_cases hroom :
      chunk.offset + alignOffset chunk.offset layout.align + layout.size ≤ chunk.stop
  · refine .inl ⟨_, rfl, hroom, ?_⟩
    rw [if_pos (by omega)]
    dsimp only
    rw [if_pos (by omega)]
    dsimp only
    rw [if_pos hroom, if_neg (by omega)]
  · refine .inr ⟨by omega, ?_⟩
    split
    · rfl
    · next alignedAddr haligned =>
      split
      · rfl
      · next nextAddr hnext =>
        rw [Option.ite_none_right_eq_some] at haligned hnext
        obtain ⟨_, haligned⟩ := haligned
        obtain ⟨_, hnext⟩ := hnext
        cases haligned
        cases hnext
        rw [if_neg hroom]

/-- The chunks lie where the allocator put them, and none behind the current one is in use. -/
structure ChunksInv (memory : Allocator usizeMax chunkSize) (arena : Arena) : Prop where
  current : arena.currentChunkIndex < arena.chunks.length
  valid   : ∀ n (chunk : Chunk), arena.chunks[n]? = some chunk → chunk.Valid memory n
  empty   : ∀ n (chunk : Chunk), arena.currentChunkIndex < n → arena.chunks[n]? = some chunk →
    chunk.offset = chunk.start

/-- An address range in the part of a chunk that is in use. -/
def Used (arena : Arena) (addr size : Nat) : Prop :=
  ∃ (n : Nat) (chunk : Chunk), arena.chunks[n]? = some chunk ∧ chunk.start ≤ addr ∧
    addr + size ≤ chunk.offset

theorem Used.chunk {addr size : Nat} (h : Used arena addr size) (hinv : ChunksInv memory arena) :
    ∃ chunk ∈ arena.chunks, chunk.start ≤ addr ∧ addr + size ≤ chunk.stop := by
  obtain ⟨n, chunk, hchunk, hlow, hhigh⟩ := h
  have hvalid := hinv.valid n chunk hchunk
  exact ⟨chunk, mem_of_getElem? hchunk, hlow, hhigh.trans hvalid.high⟩

/-! ### Section 4: Placing a value -/

/-- The value has a place of its own. -/
structure Places (memory : Allocator usizeMax chunkSize) (arena : Arena) (layout : Layout)
    (ptr : Nat) (arena' : Arena) : Prop where
  inv        : ChunksInv memory arena'
  aligned    : layout.align ∣ ptr
  used       : Used arena' ptr layout.size
  kept       : ∀ addr size, Used arena addr size →
    Used arena' addr size ∧ Apart addr size ptr layout.size
  elements   : arena'.elements = arena.elements
  valid      : arena'.valid = arena.valid
  scopeDepth : arena'.scopeDepth = arena.scopeDepth
  index      : arena'.currentChunkIndex ≤ arena.currentChunkIndex + 1

/-- A value that is placed behind the others of its chunk has a place of its own. -/
theorem places_set {chunk : Chunk} {ptr : Nat} (hinv : ChunksInv memory arena)
    (hchunk : arena.chunks[arena.currentChunkIndex]? = some chunk)
    (hptr : ptr = chunk.offset + alignOffset chunk.offset layout.align)
    (hroom : ptr + layout.size ≤ chunk.stop) :
    Places memory arena layout ptr { arena with
      chunks := arena.chunks.set arena.currentChunkIndex
        { chunk with offset := ptr + layout.size } } := by
  have hvalid := hinv.valid _ _ hchunk
  have hself : (arena.chunks.set arena.currentChunkIndex
      { chunk with offset := ptr + layout.size })[arena.currentChunkIndex]? =
        some { chunk with offset := ptr + layout.size } :=
    getElem?_set_self hinv.current
  constructor
  · constructor
    · show arena.currentChunkIndex < _
      rw [length_set]
      exact hinv.current
    · intro n other hother
      by_cases hn : arena.currentChunkIndex = n
      · subst hn
        rw [hself] at hother
        cases hother
        have hlow := hvalid.low
        exact ⟨hvalid.start, hvalid.stop, by dsimp only; omega, hroom⟩
      · rw [getElem?_set_ne hn] at hother
        exact hinv.valid n other hother
    · intro n other hn hother
      dsimp only at hn hother
      rw [getElem?_set_ne (by omega)] at hother
      exact hinv.empty n other hn hother
  · rw [hptr]
    exact align_dvd_add_alignOffset _ layout.align_pos
  · have hlow := hvalid.low
    exact ⟨_, _, hself, by dsimp only; omega, le_refl _⟩
  · intro addr size hused
    obtain ⟨n, other, hother, hlow, hhigh⟩ := hused
    by_cases hn : arena.currentChunkIndex = n
    · -- in the same chunk it lies in the part that was in use
      subst hn
      rw [hchunk] at hother
      cases hother
      exact ⟨⟨_, _, hself, hlow, by dsimp only; omega⟩, .inl (by omega)⟩
    · have hkept : Used { arena with
          chunks := arena.chunks.set arena.currentChunkIndex
            { chunk with offset := ptr + layout.size } } addr size :=
        ⟨n, other, (getElem?_set_ne hn).trans hother, hlow, hhigh⟩
      have hother' := hinv.valid n other hother
      have hstop := hvalid.stop
      have hstop' := hother'.stop
      have hhigh' := hother'.high
      have hlow' := hvalid.low
      obtain hle | hle := memory.disjoint _ _ _ _ hn hvalid.start hother'.start
      · exact ⟨hkept, .inr (by omega)⟩
      · exact ⟨hkept, .inl (by omega)⟩
  · rfl
  · rfl
  · rfl
  · exact Nat.le_succ _

/-- Behind the current chunk, the invariant goes on for the next one. -/
theorem ChunksInv.next (h : ChunksInv memory arena)
    (hnext : arena.currentChunkIndex + 1 < arena.chunks.length) :
    ChunksInv memory { arena with currentChunkIndex := arena.currentChunkIndex + 1 } where
  current := hnext
  valid   := h.valid
  empty   := fun n chunk hn => h.empty n chunk (Nat.lt_of_succ_lt hn)

theorem ChunksInv.push (h : ChunksInv memory arena)
    (hlast : arena.chunks.length = arena.currentChunkIndex + 1) {chunk : Chunk}
    (hchunk : Chunk.new memory arena.chunks.length = .ok chunk) :
    ChunksInv memory { arena with
      chunks := arena.chunks ++ [chunk]
      currentChunkIndex := arena.currentChunkIndex + 1 } := by
  have hlen : (arena.chunks ++ [chunk]).length = arena.currentChunkIndex + 2 := by
    rw [length_append, length_singleton, hlast]
  constructor
  · show arena.currentChunkIndex + 1 < (arena.chunks ++ [chunk]).length
    omega
  · intro n other hother
    rw [getElem?_append] at hother
    split at hother
    · exact h.valid n other hother
    · -- the chunk that is new
      next hge =>
      have hn : n = arena.chunks.length := by
        have hlt := (List.getElem?_eq_some_iff.mp hother).1
        rw [length_singleton] at hlt
        omega
      subst hn
      rw [Nat.sub_self] at hother
      cases hother
      unfold Chunk.new at hchunk
      split at hchunk
      · cases hchunk
      · next start hstart =>
        cases hchunk
        exact ⟨hstart, rfl, le_refl _, Nat.le_add_right _ _⟩
  · intro n other hn hother
    dsimp only at hn hother
    have hlt := (List.getElem?_eq_some_iff.mp hother).1
    omega

/-- What is used stays so when chunks are added and another one is current. -/
theorem Places.of_wider {wider arena' : Arena} {ptr : Nat}
    (h : Places memory wider layout ptr arena')
    (hindex : arena'.currentChunkIndex ≤ arena.currentChunkIndex + 1)
    (hused : ∀ addr size, Used arena addr size → Used wider addr size)
    (helements : wider.elements = arena.elements) (hvalid : wider.valid = arena.valid)
    (hdepth : wider.scopeDepth = arena.scopeDepth) :
    Places memory arena layout ptr arena' where
  inv := h.inv
  aligned := h.aligned
  used := h.used
  kept := fun addr size hbefore => h.kept addr size (hused addr size hbefore)
  elements := h.elements.trans helements
  valid := h.valid.trans hvalid
  scopeDepth := h.scopeDepth.trans hdepth
  index := hindex

/-- In an empty chunk there is room. -/
theorem places_empty
    (hinv : ChunksInv memory arena)
    (hempty : ∀ chunk, arena.chunks[arena.currentChunkIndex]? = some chunk →
      chunk.offset = chunk.start)
    (hfits : ∀ n start, memory.starts n = some start →
      start + alignOffset start layout.align + layout.size ≤ start + chunkSize) :
    ∃ ptr chunk, arena.chunks[arena.currentChunkIndex]? = some chunk ∧
      (chunk.allocate usizeMax layout).1 = some ptr ∧
      Places memory arena layout ptr { arena with
        chunks := arena.chunks.set arena.currentChunkIndex
          (chunk.allocate usizeMax layout).2 } := by
  obtain ⟨chunk, hchunk⟩ : ∃ chunk, arena.chunks[arena.currentChunkIndex]? = some chunk :=
    ⟨_, getElem?_eq_getElem hinv.current⟩
  have hvalid := hinv.valid _ _ hchunk
  obtain ⟨ptr, hptr, hroom, halloc⟩ | ⟨hfull, _⟩ := allocate_cases hvalid layout
  · refine ⟨ptr, chunk, hchunk, ?_, ?_⟩
    · rw [halloc]
    · rw [halloc]
      exact places_set hinv hchunk hptr hroom
  · have hroom := hfits _ _ hvalid.start
    rw [hempty chunk hchunk] at hfull
    rw [hvalid.stop] at hfull
    omega

/-- Every value that fits an empty chunk is placed, as long as there is memory. -/
theorem place_spec (hinv : ChunksInv memory arena)
    (hfits : ∀ n start, memory.starts n = some start →
      start + alignOffset start layout.align + layout.size ≤ start + chunkSize) :
    (∃ ptr arena', place memory arena layout = .ok (ptr, arena') ∧
        Places memory arena layout ptr arena') ∨
      (place memory arena layout = .error .outOfMemory ∧
        memory.starts (arena.currentChunkIndex + 1) = none) := by
  obtain ⟨chunk, hchunk⟩ : ∃ chunk, arena.chunks[arena.currentChunkIndex]? = some chunk :=
    ⟨_, getElem?_eq_getElem hinv.current⟩
  have hget : getChunk arena.chunks arena.currentChunkIndex = .ok chunk := by
    rw [getChunk, hchunk]
  unfold place
  rw [hget, ok_bind]
  obtain ⟨ptr, hptr, hroom, halloc⟩ | ⟨_, halloc⟩ := allocate_cases (hinv.valid _ _ hchunk) layout
  · -- there is room in the current chunk
    rw [halloc]
    exact .inl ⟨ptr, _, rfl, places_set hinv hchunk hptr hroom⟩
  rw [halloc]
  have hsame : arena.chunks.set arena.currentChunkIndex chunk = arena.chunks := by
    obtain ⟨hlt, heq⟩ := List.getElem?_eq_some_iff.mp hchunk
    rw [← heq, set_getElem_self]
  dsimp only
  rw [hsame]
  unfold pushChunk
  dsimp only
  by_cases hnext : arena.currentChunkIndex + 1 < arena.chunks.length
  · -- the next chunk is empty
    rw [if_neg (by omega), ok_bind]
    have hempty : ∀ other, arena.chunks[arena.currentChunkIndex + 1]? = some other →
        other.offset = other.start :=
      fun other hother => hinv.empty _ other (Nat.lt_succ_self _) hother
    obtain ⟨ptr, other, hother, hptr, hplaces⟩ := places_empty (hinv.next hnext) hempty hfits
    rw [show getChunk arena.chunks (arena.currentChunkIndex + 1) = .ok other by
      rw [getChunk, hother], ok_bind]
    rw [hptr]
    exact .inl ⟨ptr, _, rfl, hplaces.of_wider (le_refl _) (fun _ _ hused => hused) rfl rfl rfl⟩
  · -- a new chunk is
    have hlast : arena.chunks.length = arena.currentChunkIndex + 1 := by
      have hcurrent := hinv.current
      omega
    rw [if_pos (by omega)]
    cases hnew : Chunk.new memory arena.chunks.length with
    | error failure =>
      unfold Chunk.new at hnew
      split at hnew
      · next hnone =>
        cases hnew
        exact .inr ⟨rfl, hlast ▸ hnone⟩
      · cases hnew
    | ok new =>
      have hpush := hinv.push hlast hnew
      rw [ok_bind, if_pos (by rw [length_append, length_singleton]; omega),
        ok_bind]
      have hempty : ∀ other, (arena.chunks ++ [new])[arena.currentChunkIndex + 1]? = some other →
          other.offset = other.start := by
        intro other hother
        rw [← hlast, getElem?_concat_length] at hother
        cases hother
        unfold Chunk.new at hnew
        split at hnew
        · cases hnew
        · cases hnew
          rfl
      obtain ⟨ptr, other, hother, hptr, hplaces⟩ := places_empty hpush hempty hfits
      rw [show getChunk (arena.chunks ++ [new]) (arena.currentChunkIndex + 1) = .ok other by
        rw [getChunk, hother], ok_bind]
      rw [hptr]
      refine .inl ⟨ptr, _, rfl, hplaces.of_wider (le_refl _) ?_ rfl rfl rfl⟩
      intro addr size hused
      obtain ⟨n, used, hchunk, hlow, hhigh⟩ := hused
      have hlt := (List.getElem?_eq_some_iff.mp hchunk).1
      exact ⟨n, used, (getElem?_append_left hlt).trans hchunk, hlow, hhigh⟩

/-! ### Section 5: Clearing -/

theorem resetChunks_spec {indices : List Nat} :
    ∀ {chunks : List Chunk}, (∀ index ∈ indices, index < chunks.length) →
      ∃ chunks', resetChunks chunks indices = .ok chunks' ∧ chunks'.length = chunks.length ∧
        ∀ n, chunks'[n]? =
          chunks[n]?.map (fun chunk => if n ∈ indices then chunk.reset else chunk) := by
  induction indices with
  | nil =>
    intro chunks _
    refine ⟨chunks, rfl, rfl, ?_⟩
    intro n
    simp
  | cons index rest ih =>
    intro chunks hlt
    have hindex : index < chunks.length := hlt index mem_cons_self
    have hget : getChunk chunks index = .ok chunks[index] := by
      rw [getChunk, getElem?_eq_getElem hindex]
    have hrest : ∀ i ∈ rest, i < (chunks.set index chunks[index].reset).length := by
      intro i hi
      rw [length_set]
      exact hlt i (mem_cons_of_mem _ hi)
    obtain ⟨chunks', hreset, hlen, hchunks'⟩ := ih hrest
    refine ⟨chunks', ?_, ?_, ?_⟩
    · rw [resetChunks, hget, ok_bind, hreset]
    · rw [hlen, length_set]
    · intro n
      rw [hchunks' n]
      by_cases hn : index = n
      · subst hn
        rw [getElem?_set_self hindex, getElem?_eq_getElem hindex, Option.map_some,
          Option.map_some, if_pos mem_cons_self]
        -- a chunk that is reset twice is reset
        split <;> rfl
      · rw [getElem?_set_ne hn]
        simp only [mem_cons, Ne.symm hn, false_or]

/-- All chunks are empty. -/
theorem resetChunks_current (hinv : ChunksInv memory arena) :
    ∃ chunks, resetChunks arena.chunks (List.range (arena.currentChunkIndex + 1)) = .ok chunks ∧
      ChunksInv memory { arena with
        chunks := chunks, elements := [], currentChunkIndex := 0 } := by
  have hlt : ∀ index ∈ List.range (arena.currentChunkIndex + 1), index < arena.chunks.length := by
    intro index hindex
    have hcurrent := hinv.current
    rw [mem_range] at hindex
    omega
  obtain ⟨chunks, hreset, hlen, hchunks⟩ := resetChunks_spec hlt
  refine ⟨chunks, hreset, ?_, ?_, ?_⟩
  · have hcurrent := hinv.current
    show 0 < chunks.length
    omega
  · intro n chunk hchunk
    rw [hchunks n, Option.map_eq_some_iff] at hchunk
    obtain ⟨before, hbefore, rfl⟩ := hchunk
    have hvalid := hinv.valid n before hbefore
    split
    · have hstop := hvalid.stop
      exact ⟨hvalid.start, hvalid.stop, le_refl _, by simp only [Chunk.reset]; omega⟩
    · exact hvalid
  · intro n chunk _ hchunk
    rw [hchunks n, Option.map_eq_some_iff] at hchunk
    obtain ⟨before, hbefore, rfl⟩ := hchunk
    split
    · rfl
    · next hn =>
      apply hinv.empty n before _ hbefore
      rw [mem_range] at hn
      omega

/-! ### Section 6: The invariant -/

/-- The values of `s.dropped` are those before the last clear. -/
structure Inv (memory : Allocator usizeMax chunkSize) (ops : List Op) (s : State) : Prop where
  chunks  : ChunksInv memory s.arena
  depth   : s.arena.scopeDepth = depth ops
  layouts : s.boxes.map (·.layout) = layouts ops
  aligned : ∀ value box, Boxed s value box → box.layout.align ∣ box.ptr
  ids     : s.dropped ++ s.arena.elements.map (·.id) = List.range s.boxes.length
  cleared : ∀ value, Cleared ops value ↔ value < s.dropped.length
  used    : ∀ value box, Boxed s value box → s.dropped.length ≤ value →
    Used s.arena box.ptr box.layout.size
  apart   : ∀ value value' box box', value ≠ value' → Boxed s value box → Boxed s value' box' →
    s.dropped.length ≤ value → s.dropped.length ≤ value' → box.Apart box'
  index   : s.arena.currentChunkIndex ≤ s.arena.elements.length
  current : s.cells[s.arena.valid]? = some true
  flagged : ∀ value box, Boxed s value box →
    (s.dropped.length ≤ value → box.valid = s.arena.valid) ∧
      (value < s.dropped.length → s.cells[box.valid]? = some false)

theorem Inv.length_layouts (h : Inv memory ops s) :
    (ElementArena.layouts ops).length = s.boxes.length := by
  rw [← h.layouts, length_map]

theorem Inv.dropped_eq (h : Inv memory ops s) :
    s.dropped = List.range s.dropped.length := by
  have htake := congrArg (List.take s.dropped.length) h.ids
  have hle : s.dropped.length ≤ s.boxes.length := by
    have hlen := congrArg List.length h.ids
    rw [length_append, length_range] at hlen
    omega
  rw [take_left, take_range, Nat.min_eq_left hle] at htake
  exact htake

theorem Inv.not_cleared (h : Inv memory ops s) :
    ¬ Cleared ops value ↔ s.dropped.length ≤ value := by
  rw [h.cleared, Nat.not_lt]

theorem Boxed.lt (h : Boxed s value box) :
    value < s.boxes.length :=
  (List.getElem?_eq_some_iff.mp h).1

/-- All values are dropped, and no box can be read. -/
theorem forceClear_spec (h : Inv memory ops s) :
    ∃ s', forceClear s = .ok s' ∧ ChunksInv memory s'.arena ∧
      s'.arena.scopeDepth = s.arena.scopeDepth ∧ s'.boxes = s.boxes ∧
      s'.dropped = List.range s.boxes.length ∧ s'.arena.elements = [] ∧
      s'.arena.currentChunkIndex = 0 ∧ s'.cells[s'.arena.valid]? = some true ∧
      ∀ value box, Boxed s value box → s'.cells[box.valid]? = some false := by
  obtain ⟨chunks, hreset, hchunks⟩ := resetChunks_current h.chunks
  have hvalid := (List.getElem?_eq_some_iff.mp h.current).1
  unfold forceClear
  rw [hreset, ok_bind]
  refine ⟨_, rfl, ⟨hchunks.current, hchunks.valid, hchunks.empty⟩, rfl, rfl, h.ids, rfl, rfl, ?_,
    ?_⟩
  · dsimp only
    have hlen : (s.cells.set s.arena.valid false).length = s.cells.length := List.length_set
    rw [← hlen, List.getElem?_concat_length]
  · intro value box hbox
    have hcell : (s.cells.set s.arena.valid false)[box.valid]? = some false := by
      by_cases hlive : s.dropped.length ≤ value
      · rw [(h.flagged value box hbox).1 hlive, List.getElem?_set_self hvalid]
      · have hold := (h.flagged value box hbox).2 (by omega)
        by_cases hsame : s.arena.valid = box.valid
        · rw [← hsame, List.getElem?_set_self hvalid]
        · rw [List.getElem?_set_ne hsame, hold]
    have hlt := (List.getElem?_eq_some_iff.mp hcell).1
    rw [List.getElem?_append_left hlt, hcell]

variable (memory) in
theorem inv_new (hsize : chunkSize ≠ 0) :
    (∃ s, new memory = .ok s ∧ Inv memory [] s) ∨
      (new memory = .error .outOfMemory ∧ ∃ n, Peak [] n ∧ memory.starts n = none) := by
  unfold new Chunk.new
  rw [if_neg hsize]
  cases hstart : memory.starts 0 with
  | none => exact .inr ⟨rfl, 0, ⟨[], [], 0, rfl, le_refl _, fun _ _ => not_cleared_nil⟩, hstart⟩
  | some start =>
    refine .inl ⟨_, rfl, ?_⟩
    have hchunks : ∀ n chunk, [(⟨start, start + chunkSize, start⟩ : Chunk)][n]? = some chunk →
        n = 0 ∧ chunk = ⟨start, start + chunkSize, start⟩ := by
      intro n chunk hchunk
      cases n with
      | zero =>
        cases hchunk
        exact ⟨rfl, rfl⟩
      | succ n => cases hchunk
    constructor
    · constructor
      · exact Nat.zero_lt_one
      · intro n chunk hchunk
        obtain ⟨rfl, rfl⟩ := hchunks n chunk hchunk
        exact ⟨hstart, rfl, le_refl _, Nat.le_add_right _ _⟩
      · intro n chunk _ hchunk
        obtain ⟨_, rfl⟩ := hchunks n chunk hchunk
        rfl
    · rfl
    · rfl
    · intro value box hbox
      cases hbox
    · rfl
    · intro value
      exact ⟨fun h => absurd h not_cleared_nil, fun h => absurd h (Nat.not_lt_zero _)⟩
    · intro value box hbox
      cases hbox
    · intro value value' box box' _ hbox
      cases hbox
    · exact le_refl _
    · rfl
    · intro value box hbox
      cases hbox

/-- A box is an old one or that of the last value. -/
theorem boxed_concat {new : ArenaBox} (h : (s.boxes ++ [new])[value]? = some box) :
    Boxed s value box ∨ value = s.boxes.length ∧ box = new := by
  rw [getElem?_append] at h
  split at h
  · exact .inl h
  · have hlt := (List.getElem?_eq_some_iff.mp h).1
    rw [length_singleton] at hlt
    have hvalue : value = s.boxes.length := by omega
    subst hvalue
    rw [Nat.sub_self] at h
    cases h
    exact .inr ⟨rfl, rfl⟩

section

variable (h : Inv memory ops s)
include h

theorem Inv.length_dropped_le : s.dropped.length ≤ s.boxes.length := by
  have hlen := congrArg List.length h.ids
  rw [length_append, length_range] at hlen
  omega

theorem inv_alloc (hfits : ∀ n start, memory.starts n = some start →
      start + alignOffset start layout.align + layout.size ≤ start + chunkSize) :
    (∃ s', alloc memory s layout = .ok s' ∧ Inv memory (ops ++ [.alloc layout]) s') ∨
      (alloc memory s layout = .error .outOfMemory ∧ ∃ n, Peak (ops ++ [.alloc layout]) n ∧
        memory.starts n = none) := by
  unfold alloc
  obtain ⟨ptr, arena', hplace, hplaces⟩ | ⟨hplace, hnone⟩ := place_spec h.chunks hfits
  · rw [hplace, ok_bind]
    refine .inl ⟨_, rfl, ?_⟩
    have hdropped := h.length_dropped_le
    constructor
    · exact ⟨hplaces.inv.current, hplaces.inv.valid, hplaces.inv.empty⟩
    · rw [depth_concat]
      exact hplaces.scopeDepth.trans h.depth
    · rw [layouts_append, ← h.layouts, map_append]
      rfl
    · intro value box hbox
      obtain hold | ⟨_, rfl⟩ := boxed_concat hbox
      · exact h.aligned value box hold
      · exact hplaces.aligned
    · dsimp only
      rw [hplaces.elements, map_append, ← append_assoc, h.ids, length_append]
      exact range_succ.symm
    · intro value
      rw [cleared_concat, h.cleared]
      simp
    · intro value box hbox hlive
      obtain hold | ⟨_, rfl⟩ := boxed_concat hbox
      · exact (hplaces.kept _ _ (h.used value box hold hlive)).1
      · exact hplaces.used
    · intro value value' box box' hne hbox hbox' hlive hlive'
      obtain hold | ⟨hvalue, rfl⟩ := boxed_concat hbox
      · obtain hold' | ⟨_, rfl⟩ := boxed_concat hbox'
        · exact h.apart value value' box box' hne hold hold' hlive hlive'
        · exact (hplaces.kept _ _ (h.used value box hold hlive)).2
      · obtain hold' | ⟨hvalue', _⟩ := boxed_concat hbox'
        · exact (hplaces.kept _ _ (h.used value' box' hold' hlive')).2.symm
        · exact absurd (hvalue.trans hvalue'.symm) hne
    · have hindex := hplaces.index.trans (Nat.succ_le_succ h.index)
      rw [← hplaces.elements] at hindex
      dsimp only
      rw [length_append]
      exact hindex
    · dsimp only
      rw [hplaces.valid]
      exact h.current
    · intro value box hbox
      obtain hold | ⟨rfl, rfl⟩ := boxed_concat hbox
      · refine ⟨?_, (h.flagged value box hold).2⟩
        intro hlive
        exact ((h.flagged value box hold).1 hlive).trans hplaces.valid.symm
      · exact ⟨fun _ => rfl, fun hlt => absurd hlt (Nat.not_lt.mpr hdropped)⟩
  · rw [hplace]
    refine .inr ⟨rfl, _, ⟨_, [], s.dropped.length, (append_nil _).symm, ?_, ?_⟩, hnone⟩
    · -- the values of all chunks before live
      have hlen := congrArg List.length h.ids
      rw [length_append, length_map, length_range, ← h.length_layouts] at hlen
      have hindex := h.index
      rw [layouts_append, length_append, show (layouts [.alloc layout]).length = 1 from rfl]
      omega
    · intro value hvalue hcleared
      rw [cleared_concat, h.cleared] at hcleared
      simp at hcleared
      omega

/-- Operations on scopes change the depth only. -/
theorem inv_scope {depth' : Nat} (hdepth : depthAfter (depth ops) op = depth')
    (halloc : layouts [op] = []) (hclear : op ≠ .clear) :
    Inv memory (ops ++ [op]) { s with arena := { s.arena with scopeDepth := depth' } } where
  chunks  := ⟨h.chunks.current, h.chunks.valid, h.chunks.empty⟩
  depth   := by rw [depth_concat, hdepth]
  layouts := by
    rw [layouts_append, halloc, append_nil]
    exact h.layouts
  aligned := h.aligned
  ids     := h.ids
  cleared := by
    intro value
    rw [cleared_concat, h.cleared]
    simp [hclear]
  used    := h.used
  apart   := h.apart
  index   := h.index
  current := h.current
  flagged := h.flagged

theorem inv_clear : ∃ s', clear s = .ok s' ∧ Inv memory (ops ++ [.clear]) s' := by
  unfold clear
  rw [h.depth]
  by_cases hdepth : depth ops = 0
  · rw [if_pos hdepth]
    obtain ⟨s', hclear, hchunks, hscope, hboxes, hdropped, helements, hindex, hcurrent, hflags⟩ :=
      forceClear_spec h
    have hlen : s'.dropped.length = s.boxes.length := by rw [hdropped, length_range]
    -- no value lives
    have hnone : ∀ value box, Boxed s' value box → ¬ s'.dropped.length ≤ value := by
      intro value box hbox
      have hlt := hbox.lt
      rw [hboxes] at hlt
      omega
    refine ⟨s', hclear, ?_⟩
    constructor
    · exact hchunks
    · rw [hscope, h.depth, depth_concat]
      rfl
    · rw [hboxes, h.layouts, layouts_append]
      exact (append_nil _).symm
    · intro value box hbox
      unfold Boxed at hbox
      rw [hboxes] at hbox
      exact h.aligned value box hbox
    · rw [helements, hdropped, hboxes]
      exact append_nil _
    · intro value
      rw [cleared_concat, h.cleared, hlen, h.length_layouts]
      have hle := h.length_dropped_le
      constructor
      · intro hvalue
        omega
      · intro hvalue
        exact .inr ⟨rfl, hdepth, hvalue⟩
    · intro value box hbox hlive
      exact absurd hlive (hnone value box hbox)
    · intro value value' box box' _ hbox _ hlive
      exact absurd hlive (hnone value box hbox)
    · rw [hindex]
      exact Nat.zero_le _
    · exact hcurrent
    · intro value box hbox
      refine ⟨fun hlive => absurd hlive (hnone value box hbox), fun _ => ?_⟩
      unfold Boxed at hbox
      rw [hboxes] at hbox
      exact hflags value box hbox
  · rw [if_neg hdepth]
    refine ⟨s, rfl, h.chunks, ?_, ?_, h.aligned, h.ids, ?_, h.used, h.apart, h.index,
      h.current, h.flagged⟩
    · rw [h.depth, depth_concat]
      rfl
    · rw [h.layouts, layouts_append]
      exact (append_nil _).symm
    · intro value
      rw [cleared_concat, h.cleared]
      simp [hdepth]

/-- A step of balanced operations keeps the invariant, as long as there is memory. -/
theorem inv_step (hbalanced : Balanced (ops ++ [op])) (hfits : FitEmpty memory (ops ++ [op])) :
    (∃ s', step memory s op = .ok s' ∧ Inv memory (ops ++ [op]) s') ∨
      (step memory s op = .error .outOfMemory ∧ ∃ n, Peak (ops ++ [op]) n ∧
        memory.starts n = none) := by
  cases op with
  | alloc layout =>
    apply inv_alloc h
    apply hfits layout
    rw [layouts_append]
    exact mem_append_right _ (mem_singleton_self layout)
  | beginScope =>
    have hdepth : depthAfter (depth ops) .beginScope = s.arena.scopeDepth + 1 := by
      rw [h.depth]
      rfl
    exact .inl ⟨_, rfl, inv_scope h hdepth rfl (fun heq => nomatch heq)⟩
  | endScope =>
    have hopen := hbalanced.endScope
    have hdepth : depthAfter (depth ops) .endScope = s.arena.scopeDepth - 1 := by
      rw [h.depth]
      rfl
    refine .inl ⟨_, ?_, inv_scope h hdepth rfl (fun heq => nomatch heq)⟩
    rw [← h.depth] at hopen
    exact if_neg hopen
  | clear => exact .inl (inv_clear h)

end

theorem run_concat (ops : List Op) (op : Op) :
    run memory (ops ++ [op]) = run memory ops >>= fun s => step memory s op := by
  unfold run
  cases new memory with
  | error failure => rfl
  | ok s =>
    rw [ok_bind, ok_bind, foldlM_append]
    cases List.foldlM (step memory) s ops with
    | error failure => rfl
    | ok s' =>
      rw [ok_bind, ok_bind, foldlM_cons]
      cases step memory s' op <;> rfl

theorem inv_run (hsize : chunkSize ≠ 0) (ops : List Op) (hbalanced : Balanced ops)
    (hfits : FitEmpty memory ops) :
    (∃ s, run memory ops = .ok s ∧ Inv memory ops s) ∨
      (run memory ops = .error .outOfMemory ∧ ∃ n, Peak ops n ∧ memory.starts n = none) := by
  -- induction on the operations, the last one last
  induction ops using List.reverseRecOn with
  | nil =>
    unfold run
    obtain ⟨s, hnew, hinv⟩ | ⟨hnew, hnone⟩ := inv_new memory hsize
    · exact .inl ⟨s, by rw [hnew]; rfl, hinv⟩
    · exact .inr ⟨by rw [hnew]; rfl, hnone⟩
  | append_singleton ops op ih =>
    rw [run_concat]
    obtain ⟨s, hrun, hinv⟩ | ⟨hrun, hnone⟩ := ih hbalanced.of_concat hfits.of_concat
    · rw [hrun, ok_bind]
      exact inv_step hinv hbalanced hfits
    · rw [hrun]
      obtain ⟨n, hpeak, hnone⟩ := hnone
      exact .inr ⟨rfl, n, hpeak.concat, hnone⟩

/-! ### Section 7: The result -/

theorem deref_eq :
    box.deref s = if s.cells[box.valid]? = some true then .ok box.ptr else .error .cleared := by
  unfold ArenaBox.deref ArenaBox.validate
  split <;> rfl

/-- A box of a part can be read whenever the box of the whole can. -/
theorem map_deref {s' : State} {box' : ArenaBox} {offset : Nat}
    (h : box.map s offset layout = .ok box') :
    box'.deref s' = .ok box'.ptr ↔ box.deref s' = .ok box.ptr := by
  obtain ⟨ptr, _, heq⟩ := Exec.bind_eq_ok.mp h
  cases heq
  rw [deref_eq, deref_eq]
  split <;> simp

theorem count_range (n value : Nat) : (List.range n).count value = if value < n then 1 else 0 := by
  simp

theorem Inv.sound (h : Inv memory ops s) : Sound memory ops s where
  layouts  := h.layouts
  chunks   := fun n chunk hchunk =>
    ⟨(h.chunks.valid n chunk hchunk).start, (h.chunks.valid n chunk hchunk).stop⟩
  aligned  := h.aligned
  inChunk  := fun value box hbox hlive =>
    (h.used value box hbox (h.not_cleared.mp hlive)).chunk h.chunks
  disjoint := fun value value' box box' hne hbox hbox' hlive hlive' =>
    h.apart value value' box box' hne hbox hbox' (h.not_cleared.mp hlive)
      (h.not_cleared.mp hlive')
  deferred := by
    intro hdepth
    rw [← h.depth] at hdepth
    exact if_neg hdepth
  dropped  := by
    intro value box _
    rw [h.dropped_eq, count_range, h.cleared]
    exact ⟨fun hlt => if_pos hlt, fun hlt => if_neg hlt⟩
  readable := by
    intro value box hbox
    rw [deref_eq, h.not_cleared]
    constructor
    · intro hread
      by_contra hlt
      rw [(h.flagged value box hbox).2 (by omega)] at hread
      cases hread
    · intro hlive
      rw [(h.flagged value box hbox).1 hlive, h.current, if_pos rfl]
  atDrop   := by
    obtain ⟨s', hdrop, _, _, _, hdropped, _, _, _, hflags⟩ := forceClear_spec h
    refine ⟨s', hdrop, ?_⟩
    intro value box hbox
    constructor
    · rw [hdropped, count_range, if_pos hbox.lt]
    · rw [deref_eq, hflags value box hbox]
      rfl

/-- A machine with memory for two chunks, the first of them at an odd address. -/
def smallMemory : Allocator (2 ^ 64 - 1) 1024 where
  starts n := if n < 2 then some (8193 - 4096 * n) else none
  notNull n start h := by
    rw [Option.ite_none_right_eq_some] at h
    grind
  bounded n start h := by
    rw [Option.ite_none_right_eq_some] at h
    grind
  disjoint m n start start' hne h h' := by
    rw [Option.ite_none_right_eq_some] at h h'
    grind

def layoutU64 : Layout := ⟨8, 8, 3, rfl⟩

/-- Half a chunk and more. -/
def layoutElement : Layout := ⟨600, 16, 4, rfl⟩

end ElementArena

end Gpui
