import Gpui.Lib.StableSort
import Gpui.Scene.Geometry

/-! # Deferred draws: the model

    An element may defer the drawing of its child.  The deferred draws of a frame are
    prepainted in rounds, since prepainting one may defer others, and are painted after
    all of them were prepainted. -/

namespace Gpui

open StableSort

/-- `Bounds::contains`. -/
def Bounds.contains {U : Type} [AddCommGroup U] [LinearOrder U] (self : Bounds U)
    (point : Point U) : Bool :=
  self.origin.x ≤ point.x && point.x < self.origin.x + self.size.width &&
    self.origin.y ≤ point.y && point.y < self.origin.y + self.size.height

inductive HitboxBehavior where
  | normal
  | blockMouse
  | blockMouseExceptScroll
deriving DecidableEq, Repr

/-- A hitbox, with the deferred draw that inserted it, if it was one. -/
structure Hitbox (U : Type) where
  id : Nat
  bounds : Bounds U
  contentMask : Bounds U
  behavior : HitboxBehavior
  insertedBy : Option Nat

/-- A deferred draw.  The element is described by what it does in the frame, be it drawn
    or reused: the hitboxes it inserts and the draws it defers. -/
inductive DeferredDraw (U : Type) where
  | mk (priority : Nat) (hitboxes : List (Hitbox U)) (deferred : List (DeferredDraw U))

namespace DeferredDraw

variable {U : Type}

def priority : DeferredDraw U → Nat
  | mk priority _ _ => priority

def hitboxes : DeferredDraw U → List (Hitbox U)
  | mk _ hitboxes _ => hitboxes

def deferred : DeferredDraw U → List (DeferredDraw U)
  | mk _ _ deferred => deferred

end DeferredDraw

/-- The ways drawing the deferred draws can panic. -/
inductive DeferredPanic where
  | indexOutOfRange
  /-- "Exceeded maximum (10) deferred depth". -/
  | deferredDepth
deriving DecidableEq, Repr

/-- The part of the next frame that deferred draws change. -/
structure DeferredFrame (U : Type) where
  hitboxes : List (Hitbox U)
  deferredDraws : List (DeferredDraw U)

namespace DeferredFrame

variable {U : Type}

/-- The frame once the root element is prepainted. -/
def ofRoot (hitboxes : List (Hitbox U)) (deferredDraws : List (DeferredDraw U)) :
    DeferredFrame U where
  hitboxes := hitboxes.map (fun hitbox => { hitbox with insertedBy := none })
  deferredDraws := deferredDraws

/-- The priority of a draw, for the sorts. -/
def priorityOf (frame : DeferredFrame U) (ix : Nat) : Nat :=
  (frame.deferredDraws[ix]?.map DeferredDraw.priority).getD 0

/-- A draw is prepainted. -/
def prepaintDraw (frame : DeferredFrame U) (ix : Nat) : Except DeferredPanic (DeferredFrame U) :=
  match frame.deferredDraws[ix]? with
  | none => .error .indexOutOfRange
  | some draw =>
      .ok {
        hitboxes := frame.hitboxes ++
          draw.hitboxes.map (fun hitbox => { hitbox with insertedBy := some ix })
        deferredDraws := frame.deferredDraws ++ draw.deferred }

/-- The order of a round. -/
def roundOrder (frame : DeferredFrame U) (roundStart : Nat) : List Nat :=
  sortByKey frame.priorityOf
    (List.range' roundStart (frame.deferredDraws.length - roundStart))

/-- The rounds from one on; the number counts down from the maximal depth. -/
def prepaintRounds : Nat → DeferredFrame U → Nat → Except DeferredPanic (DeferredFrame U)
  | depthLeft, frame, roundStart =>
      if roundStart = frame.deferredDraws.length then .ok frame
      else
        match depthLeft with
        | 0 => .error .deferredDepth
        | depthLeft + 1 => do
            let prepainted ← (frame.roundOrder roundStart).foldlM prepaintDraw frame
            prepaintRounds depthLeft prepainted frame.deferredDraws.length

def prepaintDeferredDraws (frame : DeferredFrame U) : Except DeferredPanic (DeferredFrame U) :=
  prepaintRounds 10 frame 0

/-- `deferred_draw_traversal_order`: the order in which the draws are painted. -/
def deferredDrawTraversalOrder (frame : DeferredFrame U) : List Nat :=
  sortByKey frame.priorityOf (List.range frame.deferredDraws.length)

/-! ### Hit tests -/

structure HitTest where
  ids : List Nat
  hoverHitboxCount : Nat

variable [AddCommGroup U] [LinearOrder U]

/-- The loop of `hit_test`, over the hitboxes from the top. -/
def hitTestLoop (position : Point U) :
    List (Hitbox U) → List Nat → Option Nat → List Nat × Option Nat
  | [],             ids, hoverCount => (ids, hoverCount)
  | hitbox :: rest, ids, hoverCount =>
      if (hitbox.bounds.intersect hitbox.contentMask).contains position then
        let ids := ids ++ [hitbox.id]
        let hoverCount :=
          if hoverCount.isNone && hitbox.behavior == .blockMouseExceptScroll then some ids.length
          else hoverCount
        if hitbox.behavior = .blockMouse then (ids, hoverCount)
        else hitTestLoop position rest ids hoverCount
      else hitTestLoop position rest ids hoverCount

def hitTest (frame : DeferredFrame U) (position : Point U) : HitTest :=
  let found := hitTestLoop position frame.hitboxes.reverse [] none
  ⟨found.1, found.2.getD found.1.length⟩

end DeferredFrame

end Gpui
