import Gpui.Text.LineLayout

/-! # The cache of line layouts: the model

    Layouts are kept for two frames.  A layout that is used again moves from the
    previous frame into the current one; what was not used when the frame ends is
    dropped with it.

    The tables keyed by a hash of the text are left out: no function here reads them. -/

namespace Gpui

variable (X : Type) [Field X] [LinearOrder X]

/-- The platform shapes a line.  The index of a glyph is "the index of this glyph in the
    original text". -/
structure PlatformTextSystem where
  layoutLine : List Char → X → List FontRun → LineLayout X
  index_valid : ∀ text fontSize runs,
    LineLayout.IndexValid text (layoutLine text fontSize runs).glyphs

structure CacheKey where
  text : List Char
  fontSize : X
  runs : List FontRun
  wrapWidth : Option X
  forceWidth : Option X
deriving DecidableEq

structure WrappedLineLayout where
  unwrappedLayout : LineLayout X
  wrapBoundaries : List WrapBoundary
  wrapWidth : Option X

structure FrameCache where
  lines : CacheKey X → Option (LineLayout X)
  wrappedLines : CacheKey X → Option (WrappedLineLayout X)
  usedLines : List (CacheKey X)
  usedWrappedLines : List (CacheKey X)

def FrameCache.empty : FrameCache X where
  lines := fun _ => none
  wrappedLines := fun _ => none
  usedLines := []
  usedWrappedLines := []

structure LineLayoutIndex where
  linesIndex : Nat
  wrappedLinesIndex : Nat

structure LineLayoutCache where
  previousFrame : FrameCache X
  currentFrame : FrameCache X
  platformTextSystem : PlatformTextSystem X

namespace LineLayoutCache

variable {X}

def new (platform : PlatformTextSystem X) : LineLayoutCache X where
  previousFrame := .empty X
  currentFrame := .empty X
  platformTextSystem := platform

def layoutIndex (cache : LineLayoutCache X) : LineLayoutIndex where
  linesIndex := cache.currentFrame.usedLines.length
  wrappedLinesIndex := cache.currentFrame.usedWrappedLines.length

/-- `xs[first..last]`. -/
def slice {α : Type} (xs : List α) (first last : Nat) : Run (List α) :=
  if first ≤ last ∧ last ≤ xs.length then .ok ((xs.take last).drop first)
  else .error .indexOutOfRange

/-- Moves the entries of some keys from one table to another. -/
def moveEntries {K V : Type} [DecidableEq K] (previous current : K → Option V) :
    List K → (K → Option V) × (K → Option V)
  | [] => (previous, current)
  | key :: rest =>
      match previous key with
      | some layout =>
          moveEntries (Function.update previous key none)
            (Function.update current key (some layout)) rest
      | none => moveEntries previous current rest

def reuseLayouts (cache : LineLayoutCache X) (first last : LineLayoutIndex) :
    Run (LineLayoutCache X) := do
  let previous := cache.previousFrame
  let current := cache.currentFrame
  let usedLines ← slice previous.usedLines first.linesIndex last.linesIndex
  let lines := moveEntries previous.lines current.lines usedLines
  let usedWrappedLines ←
    slice previous.usedWrappedLines first.wrappedLinesIndex last.wrappedLinesIndex
  let wrappedLines := moveEntries previous.wrappedLines current.wrappedLines usedWrappedLines
  return { cache with
    previousFrame := { previous with lines := lines.1, wrappedLines := wrappedLines.1 }
    currentFrame :=
      { lines := lines.2
        wrappedLines := wrappedLines.2
        usedLines := current.usedLines ++ usedLines
        usedWrappedLines := current.usedWrappedLines ++ usedWrappedLines } }

def truncateLayouts (cache : LineLayoutCache X) (index : LineLayoutIndex) : LineLayoutCache X :=
  let current := cache.currentFrame
  { cache with
    currentFrame := { current with
      usedLines := current.usedLines.take index.linesIndex
      usedWrappedLines := current.usedWrappedLines.take index.wrappedLinesIndex } }

def finishFrame (cache : LineLayoutCache X) : LineLayoutCache X :=
  { cache with previousFrame := cache.currentFrame, currentFrame := .empty X }

/-- The layout of a line that is in no frame. -/
def shapeLine (platform : PlatformTextSystem X) (text : List Char) (fontSize : X)
    (runs : List FontRun) (forceWidth : Option X) : LineLayout X :=
  let layout := platform.layoutLine text fontSize runs
  match forceWidth with
  | some forceWidth => layout.applyForceWidthToLayout forceWidth
  | none            => layout

def layoutLine (cache : LineLayoutCache X) (text : List Char) (fontSize : X)
    (runs : List FontRun) (forceWidth : Option X) : LineLayoutCache X × LineLayout X :=
  let key : CacheKey X := ⟨text, fontSize, runs, none, forceWidth⟩
  let current := cache.currentFrame
  match current.lines key with
  | some layout => (cache, layout)
  | none =>
      let previous := cache.previousFrame
      let layout := (previous.lines key).getD
        (shapeLine cache.platformTextSystem text fontSize runs forceWidth)
      ({ cache with
        previousFrame := { previous with lines := Function.update previous.lines key none }
        currentFrame := { current with
          lines := Function.update current.lines key (some layout)
          usedLines := current.usedLines ++ [key] } },
        layout)

/-- Where a line is wrapped, without the cache. -/
def wrapLayout (layout : LineLayout X) (text : List Char) (wrapWidth : Option X)
    (maxLines : Option Nat) : Run (List WrapBoundary) :=
  match wrapWidth with
  | some wrapWidth => layout.computeWrapBoundaries text wrapWidth maxLines
  | none           => .ok []

def layoutWrappedLine (cache : LineLayoutCache X) (text : List Char) (fontSize : X)
    (runs : List FontRun) (wrapWidth : Option X) (maxLines : Option Nat) :
    Run (LineLayoutCache X × WrappedLineLayout X) :=
  let key : CacheKey X := ⟨text, fontSize, runs, wrapWidth, none⟩
  let current := cache.currentFrame
  match current.wrappedLines key with
  | some layout => .ok (cache, layout)
  | none =>
      match cache.previousFrame.wrappedLines key with
      | some layout =>
          let previous := cache.previousFrame
          .ok ({ cache with
            previousFrame := { previous with
              wrappedLines := Function.update previous.wrappedLines key none }
            currentFrame := { current with
              wrappedLines := Function.update current.wrappedLines key (some layout)
              usedWrappedLines := current.usedWrappedLines ++ [key] } },
            layout)
      | none => do
          let (cache, unwrappedLayout) := cache.layoutLine text fontSize runs none
          let wrapBoundaries ← wrapLayout unwrappedLayout text wrapWidth maxLines
          let layout : WrappedLineLayout X := ⟨unwrappedLayout, wrapBoundaries, wrapWidth⟩
          let current := cache.currentFrame
          return ({ cache with
            currentFrame := { current with
              wrappedLines := Function.update current.wrappedLines key (some layout)
              usedWrappedLines := current.usedWrappedLines ++ [key] } },
            layout)

/-! ## Runs -/

inductive Op (X : Type) where
  | layoutWrappedLine (text : List Char) (fontSize : X) (runs : List FontRun)
      (wrapWidth : Option X) (maxLines : Option Nat)
  | layoutLine (text : List Char) (fontSize : X) (runs : List FontRun) (forceWidth : Option X)
  | reuseLayouts (first last : LineLayoutIndex)
  | truncateLayouts (index : LineLayoutIndex)
  | finishFrame

/-- A call of `layout_wrapped_line`: whether it found a layout, and what it returned. -/
structure Call (X : Type) where
  key : CacheKey X
  maxLines : Option Nat
  hit : Bool
  wrapBoundaries : List WrapBoundary
deriving DecidableEq

/-- A cache and the calls so far, the last one first. -/
structure Session (X : Type) [Field X] [LinearOrder X] where
  cache : LineLayoutCache X
  calls : List (Call X)

/-- One of the frames holds a wrapped layout for the key. -/
def isCached (cache : LineLayoutCache X) (key : CacheKey X) : Bool :=
  (cache.currentFrame.wrappedLines key).isSome || (cache.previousFrame.wrappedLines key).isSome

def step (session : Session X) : Op X → Run (Session X)
  | .layoutWrappedLine text fontSize runs wrapWidth maxLines => do
      let key : CacheKey X := ⟨text, fontSize, runs, wrapWidth, none⟩
      let (cache, layout) ←
        session.cache.layoutWrappedLine text fontSize runs wrapWidth maxLines
      let call : Call X :=
        ⟨key, maxLines, session.cache.isCached key, layout.wrapBoundaries⟩
      return ⟨cache, call :: session.calls⟩
  | .layoutLine text fontSize runs forceWidth =>
      return { session with cache := (session.cache.layoutLine text fontSize runs forceWidth).1 }
  | .reuseLayouts first last => do
      let cache ← session.cache.reuseLayouts first last
      return { session with cache := cache }
  | .truncateLayouts index =>
      return { session with cache := session.cache.truncateLayouts index }
  | .finishFrame =>
      return { session with cache := session.cache.finishFrame }

def run : Session X → List (Op X) → Run (Session X)
  | session, [] => .ok session
  | session, op :: rest => do
      let session ← step session op
      run session rest

end LineLayoutCache

end Gpui
