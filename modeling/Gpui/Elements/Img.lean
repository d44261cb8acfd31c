import Gpui.Lib.Machine
import Gpui.Panic

/-! # Image elements

    An image element looks its image up when it is laid out and again when it is painted.
    The frame of an animation that it shows is in the state of the element and stays there
    between frames of the window.  It is limited to the frames of the image when the element
    is laid out, if there is an image then.

    * **`paints_frames`**: the element paints frames that its image has in the runs in which an
      image that is found for painting, and was not found for the layout, has the remembered
      frame or none; and in these runs only. -/

namespace Gpui

namespace Images

/-! ### Section 1: The model -/

/-- An image; its frames are told by their delays. -/
structure RenderImage where
  id : Nat
  delays : List Nat
deriving DecidableEq, Repr

namespace RenderImage

def frameCount (self : RenderImage) : Nat := self.delays.length

/-- In milliseconds. -/
def delay (self : RenderImage) (frameIndex : Nat) : Nat :=
  (self.delays[frameIndex]?).getD 100

end RenderImage

/-- `K` are the resources, with the caches that they are loaded by. -/
inductive ImageSource (K : Type) where
  | resource (key : K)
  | render (data : RenderImage)
  | custom
deriving DecidableEq

/-- What a cache has of a resource; `E` are errors. -/
inductive ImageCacheItem (E : Type) where
  | loading (finished : Option (Except E RenderImage))
  | loaded (result : Except E RenderImage)

def ImageCacheItem.get {E : Type} : ImageCacheItem E → Option (Except E RenderImage)
  | .loading finished => finished
  | .loaded result    => some result

/-- The item after it was asked. -/
def ImageCacheItem.asked {E : Type} : ImageCacheItem E → ImageCacheItem E
  | .loading (some result) => .loaded result
  | item                   => item

structure ImgState where
  frameIndex : Nat
  lastFrameTime : Option Nat
  startedLoading : Option Nat
deriving DecidableEq, Repr

inductive Replacement where
  | fallback
  | loading
deriving DecidableEq, Repr

structure ImgLayoutState where
  frameIndex : Nat
  replacement : Option Replacement
deriving DecidableEq, Repr

/-- An element in a frame of the window. -/
structure Img (K : Type) where
  source : ImageSource K
  hasId : Bool
  hasFallback : Bool
  hasLoading : Bool

/-- What the window tells an element. -/
structure Context where
  currentTime : Nat
  reduceMotion : Bool
  windowActive : Bool

/-- An element that is laid out.  After the comment follows what it found. -/
structure Layout (K : Type) where
  element : Img K
  state : ImgLayoutState
  -- the image that it was laid out with
  image : Option RenderImage

structure Painted where
  image : RenderImage
  frameIndex : Nat
deriving DecidableEq, Repr

structure State (K E : Type) where
  items : K → Option (ImageCacheItem E)
  /-- Kept from frame to frame. -/
  elementState : Option ImgState
  layout : Option (Layout K)
  -- the calls of `paint_image`
  painted : List Painted

/-- `provided` is what a custom loader returns, or a load that is finished when it starts. -/
inductive Action (K E : Type) where
  | requestLayout (element : Img K) (cx : Context) (provided : Option (Except E RenderImage))
  | paint (provided : Option (Except E RenderImage))
  | finishLoad (key : K) (result : Except E RenderImage)
  | removeItem (key : K)
  /-- The element is not in a frame. -/
  | drop

variable {K E : Type} [DecidableEq K]

/-- `const LOADING_DELAY`, in milliseconds. -/
def loadingDelay : Nat := 200

/-- What the source has. -/
def useData (items : K → Option (ImageCacheItem E)) (provided : Option (Except E RenderImage)) :
    ImageSource K → Option (Except E RenderImage)
  | .resource key =>
      match items key with
      | some item => item.get
      | none      => provided
  | .render data => some (.ok data)
  | .custom => provided

/-- The items after the source was asked.  One that is not there is loaded from now on. -/
def askedItems (items : K → Option (ImageCacheItem E))
    (provided : Option (Except E RenderImage)) : ImageSource K → K → Option (ImageCacheItem E)
  | .resource key =>
      Function.update items key
        (match items key with
        | some item => some item.asked
        | none      => some (.loading provided))
  | _ => items

namespace ImgState

def new : ImgState where
  frameIndex := 0
  lastFrameTime := none
  startedLoading := none

/-- The next frame is shown when that before was shown long enough. -/
def advance (self : ImgState) (data : RenderImage) (cx : Context) : ImgState :=
  if 1 < data.frameCount ∧ cx.reduceMotion = false then
    if cx.windowActive then
      match self.lastFrameTime with
      | some lastFrameTime =>
          let elapsed := cx.currentTime - lastFrameTime
          let frameDuration := data.delay self.frameIndex
          if frameDuration ≤ elapsed then
            { self with
              frameIndex := (self.frameIndex + 1) % data.frameCount
              lastFrameTime := some (cx.currentTime - (elapsed - frameDuration)) }
          else self
      | none => { self with lastFrameTime := some cx.currentTime }
    else { self with lastFrameTime := none }
  else { self with lastFrameTime := none }

/-- The state after an image was found. -/
def loaded (self : ImgState) (data : RenderImage) (cx : Context) : ImgState :=
  let maxFrameIndex := data.frameCount - 1
  let state := { self with frameIndex := min self.frameIndex maxFrameIndex }
  { state.advance data cx with startedLoading := none }

/-- The state after a lookup. -/
def update (self : ImgState) (cx : Context) : Option (Except E RenderImage) → ImgState
  | some (.ok data) => self.loaded data cx
  | some (.error _) => { self with startedLoading := none }
  | none =>
      if self.startedLoading.isSome then self
      else { self with startedLoading := some cx.currentTime }

end ImgState

/-- What is shown without an image. -/
def replacement (element : Img K) (state : Option ImgState) (cx : Context) :
    Option (Except E RenderImage) → Option Replacement
  | some (.ok _) => none
  | some (.error _) => if element.hasFallback then some .fallback else none
  | none =>
      match state.bind (·.startedLoading) with
      | some startedLoading =>
          if loadingDelay < cx.currentTime - startedLoading ∧ element.hasLoading then
            some .loading
          else none
      | none => none

def foundImage : Option (Except E RenderImage) → Option RenderImage
  | some (.ok data) => some data
  | _               => none

namespace State

def new : State K E where
  items := fun _ => none
  elementState := none
  layout := none
  painted := []

/-- The state of an element with an id, which is made in its first frame. -/
def stateOf (s : State K E) (element : Img K) : Option ImgState :=
  if element.hasId then some (s.elementState.getD .new) else none

def requestLayout (s : State K E) (element : Img K) (cx : Context)
    (provided : Option (Except E RenderImage)) : State K E :=
  let data := useData s.items provided element.source
  let state := (s.stateOf element).map (·.update cx data)
  let frameIndex :=
    match state with
    | some state => state.frameIndex
    | none       => 0
  { s with
    items := askedItems s.items provided element.source
    elementState := state
    layout := some
      { element
        state := ⟨frameIndex, replacement element (s.stateOf element) cx data⟩
        image := foundImage data } }

def paint (s : State K E) (layout : Layout K) (provided : Option (Except E RenderImage)) :
    State K E :=
  let data := useData s.items provided layout.element.source
  { s with
    items := askedItems s.items provided layout.element.source
    layout := none
    painted :=
      match foundImage data with
      | some image =>
          if image.frameCount = 0 then s.painted
          else s.painted ++ [⟨image, layout.state.frameIndex⟩]
      | none => s.painted }

def step (s : State K E) : Action K E → Option (Run (State K E))
  | .requestLayout element cx provided => some (.ok (s.requestLayout element cx provided))
  | .paint provided => s.layout.map (fun layout => .ok (s.paint layout provided))
  | .finishLoad key result =>
      match s.items key with
      | some (.loading none) =>
          some (.ok
            { s with items := Function.update s.items key (some (.loading (some result))) })
      | _ => none
  | .removeItem key => some (.ok { s with items := Function.update s.items key none })
  | .drop => some (.ok { s with elementState := none, layout := none })

end State

def machine (K E : Type) [DecidableEq K] : Machine Panic (State K E) (Action K E) where
  start := .new
  step := State.step

/-! ### Section 2: Frames that are painted -/

/-- The image has the frame, so that "It's the caller's job to pass a valid frame index" is not
    reached. -/
def Good (s : State K E) : Prop :=
  ∀ p ∈ s.painted, p.frameIndex < p.image.frameCount

/-- The condition on the steps. -/
def Heeds (s : State K E) : Action K E → Prop
  | .paint provided =>
      ∀ layout, s.layout = some layout → ∀ image,
        foundImage (useData s.items provided layout.element.source) = some image →
          -- it was found after the layout
          layout.image ≠ some image →
            image.frameCount = 0 ∨ layout.state.frameIndex < image.frameCount
  | _ => True

/-- The frame of a layout is one of the image that was found, if it has frames. -/
structure Inv (s : State K E) : Prop where
  good   : Good s
  layout : ∀ layout, s.layout = some layout → ∀ image, layout.image = some image →
    image.frameCount = 0 ∨ layout.state.frameIndex < image.frameCount

/-! ### Section 3: The steps -/

theorem advance_frameIndex {state : ImgState} {data : RenderImage} (cx : Context)
    (h : state.frameIndex < data.frameCount) :
    (state.advance data cx).frameIndex < data.frameCount := by
  unfold ImgState.advance
  split
  · split
    · split
      · dsimp only
        split
        · exact Nat.mod_lt _ (by omega)
        · exact h
      · exact h
    · exact h
  · exact h

/-- An image with frames limits the frame that was remembered. -/
theorem loaded_frameIndex (state : ImgState) {data : RenderImage} (cx : Context)
    (h : data.frameCount ≠ 0) : (state.loaded data cx).frameIndex < data.frameCount := by
  apply advance_frameIndex
  show min state.frameIndex (data.frameCount - 1) < data.frameCount
  omega

theorem foundImage_eq_some {result : Option (Except E RenderImage)} {image : RenderImage}
    (h : foundImage result = some image) : result = some (.ok image) := by
  unfold foundImage at h
  split at h
  · cases h
    rfl
  · cases h

theorem Inv.requestLayout {s : State K E} (h : Inv s) (element : Img K) (cx : Context)
    (provided : Option (Except E RenderImage)) : Inv (s.requestLayout element cx provided) where
  good := h.good
  layout := by
    intro layout hlayout image himage
    cases hlayout
    have hdata := foundImage_eq_some himage
    by_cases hcount : image.frameCount = 0
    · exact Or.inl hcount
    · refine Or.inr ?_
      rw [hdata]
      cases s.stateOf element with
      | some state => exact loaded_frameIndex state cx hcount
      -- without an id the first frame is shown
      | none => exact Nat.pos_of_ne_zero hcount

/-- Painting is right iff the frame is one of the image that is found then. -/
theorem good_paint_iff {s : State K E} (h : Inv s) {layout : Layout K}
    (hlayout : s.layout = some layout) (provided : Option (Except E RenderImage)) :
    Good (s.paint layout provided) ↔ Heeds s (.paint provided) := by
  have hheeds : Heeds s (.paint provided) ↔ ∀ image,
      foundImage (useData s.items provided layout.element.source) = some image →
        layout.image ≠ some image →
          image.frameCount = 0 ∨ layout.state.frameIndex < image.frameCount := by
    show (∀ layout', s.layout = some layout' → _) ↔ _
    rw [hlayout]
    simp
  rw [hheeds]
  have hpainted : (s.paint layout provided).painted =
      match foundImage (useData s.items provided layout.element.source) with
      | some image =>
          if image.frameCount = 0 then s.painted
          else s.painted ++ [⟨image, layout.state.frameIndex⟩]
      | none => s.painted := rfl
  unfold Good
  rw [hpainted]
  cases hfound : foundImage (useData s.items provided layout.element.source) with
  | none =>
    constructor
    · intro _ image hsome
      cases hsome
    · intro _
      exact h.good
  | some image =>
    dsimp only
    by_cases hcount : image.frameCount = 0
    · rw [if_pos hcount]
      constructor
      · intro _ image' hsame _
        cases hsame
        exact Or.inl hcount
      · intro _
        exact h.good
    · rw [if_neg hcount]
      constructor
      · intro hgood image' hsame _
        cases hsame
        exact Or.inr (hgood ⟨image, layout.state.frameIndex⟩
          (List.mem_append_right _ List.mem_cons_self))
      · intro hmeets p hp
        obtain hold | hnew := List.mem_append.mp hp
        · exact h.good p hold
        · obtain rfl := List.mem_singleton.mp hnew
          -- it is the image of the layout, or the condition speaks of it
          by_cases hsame : layout.image = some image
          · exact (h.layout layout hlayout image hsame).resolve_left hcount
          · exact (hmeets image rfl hsame).resolve_left hcount

theorem inv_step {s s' : State K E} {a : Action K E} (h : Inv s) (hheeds : Heeds s a)
    (hstep : s.step a = some (.ok s')) : Inv s' := by
  cases a with
  | requestLayout element cx provided =>
    cases hstep
    exact h.requestLayout element cx provided
  | paint provided =>
    obtain ⟨layout, hlayout, heq⟩ := Option.map_eq_some_iff.mp hstep
    cases heq
    refine ⟨(good_paint_iff h hlayout provided).mpr hheeds, ?_⟩
    intro layout' hnone
    cases hnone
  | finishLoad key result =>
    simp only [State.step] at hstep
    split at hstep
    · cases hstep
      exact ⟨h.good, h.layout⟩
    · cases hstep
  | removeItem key =>
    cases hstep
    exact ⟨h.good, h.layout⟩
  | drop =>
    cases hstep
    refine ⟨h.good, ?_⟩
    intro layout hnone
    cases hnone

theorem inv_inductive (K E : Type) [DecidableEq K] :
    (machine K E).Inductive Heeds Inv where
  start := {
    good := fun p hp => nomatch hp
    layout := fun layout hnone => by cases hnone }
  step := fun _ _ _ h hheeds hstep => inv_step h hheeds hstep

/-! ### Section 4: The result -/

/-- **Image elements paint frames that their images have** in the runs in which an image that
    was not found for the layout has the frame of the layout, or no frames; and in these runs
    only. -/
theorem paints_frames (K E : Type) [DecidableEq K] : (machine K E).Exact Heeds Good := by
  apply (inv_inductive K E).exact
  · intro s h
    exact h.good
  · intro s a s' h hstep hnot
    cases a with
    | paint provided =>
      obtain ⟨layout, hlayout, heq⟩ := Option.map_eq_some_iff.mp hstep
      cases heq
      exact ⟨[], _, trivial, rfl, fun hgood => hnot ((good_paint_iff h hlayout provided).mp hgood)⟩
    | _ => exact absurd trivial hnot

/-- An image that is loaded by a cache. -/
def cached (key : Nat) : Img Nat := ⟨.resource key, true, false, false⟩

/-- An animation of two frames shows the second one.  Then the source changes to an image of one
    frame, whose load finishes between layout and paint. -/
def changedSource : List (Action Nat Empty) :=
  [.requestLayout (cached 0) ⟨0, false, true⟩ none, .paint none,
    .finishLoad 0 (.ok ⟨0, [10, 10]⟩),
    .requestLayout (cached 0) ⟨1, false, true⟩ none, .paint none,
    .requestLayout (cached 0) ⟨20, false, true⟩ none, .paint none,
    .requestLayout (cached 1) ⟨30, false, true⟩ none,
    .finishLoad 1 (.ok ⟨1, [10]⟩), .paint none]

/-- The second frame of that image is painted. -/
theorem changedSource_paints :
    ∃ s, (machine Nat Empty).run .new changedSource = some (.ok s) ∧ ¬ Good s := by
  refine ⟨_, rfl, ?_⟩
  intro h
  have hlast := h ⟨⟨1, [10]⟩, 1⟩ (by decide)
  exact absurd hlast (by decide)

end Images

end Gpui
