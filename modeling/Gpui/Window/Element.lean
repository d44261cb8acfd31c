import Gpui.Lib.StableSort

/-! # Elements of a window: the model

    A window is drawn as a tree of elements.  Of an element, the models of the window keep
    what its code does in the phases of a draw; which elements there are is told only for
    the two kinds that change the order of drawing, cached views and deferred elements. -/

namespace Gpui

/-- An element.  `P` is what the code of a plain element does, `V` are the ids of elements,
    `N` those of views, and `K` has what the cache key of a view is made of. -/
inductive Element (P V N K : Type) where
  /-- An element, or a view that is not cached: it is rendered while it is laid out. -/
  | plain (code : P) (children : List (Element P V N K))
  /-- A cached view with the key it is prepainted under, the key after its paint, which may
      change the opacity, and the element that it renders. -/
  | cached (id : V) (view : N) (key paintedKey : K) (content : Element P V N K)
  | deferred (priority : Nat) (child : Element P V N K)

namespace Element

variable {P V N K : Type} {motive : Element P V N K → Prop}
variable {motiveAll : List (Element P V N K) → Prop}

/-- Induction on elements and, with it, on rows of them. -/
theorem induct (plain : ∀ code children, motiveAll children → motive (.plain code children))
    (cached : ∀ id view key paintedKey content, motive content →
      motive (.cached id view key paintedKey content))
    (deferred : ∀ priority child, motive child → motive (.deferred priority child))
    (nil : motiveAll [])
    (cons : ∀ element after, motive element → motiveAll after → motiveAll (element :: after)) :
    (∀ element, motive element) ∧ ∀ elements, motiveAll elements :=
  ⟨fun element => @Element.rec P V N K motive motiveAll plain cached deferred nil cons element,
    fun elements => @Element.rec_1 P V N K motive motiveAll plain cached deferred nil cons elements⟩

end Element

/-- What the reuse of cached views depends on in a draw. -/
structure CacheContext (N : Type) where
  dirtyViews : N → Bool
  refreshing : Bool

namespace CacheContext

variable {N K : Type} [DecidableEq K]

/-- The condition of `ViewElement::prepaint` for reusing a view that has a state. -/
def reuses (context : CacheContext N) (cacheKey : K) (view : N) (key : K) (refreshing : Bool) :
    Bool :=
  cacheKey == key && !context.dirtyViews view && !refreshing

end CacheContext

end Gpui
