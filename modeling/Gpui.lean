import Gpui.SumTree.FindExactSpec
import Gpui.SumTree.SeekForwardSpec
import Gpui.SumTree.MapRefines
import Gpui.Keymap.ContextParse
import Gpui.Keymap.RoundTrip
import Gpui.Scene.BatchRanges
import Gpui.Keymap.KeystrokeText
import Gpui.Keymap.Hidden
import Gpui.Keymap.ReuseSubtree
import Gpui.App.DeliverySpec
import Gpui.App.EntityMapSpec
import Gpui.App.EffectsSpec
import Gpui.Text.SplitAtSpec
import Gpui.Text.ClampSpec
import Gpui.Text.WrapWidthSpec
import Gpui.Elements.ListFillSpec
import Gpui.Elements.TextLayoutCaret
import Gpui.Elements.TextMeasure
import Gpui.Elements.UniformListScroll
import Gpui.Text.Opportunities
import Gpui.Text.TruncateFits
import Gpui.Text.RunsAligned
import Gpui.Queue.IteratorsSpec
import Gpui.Queue.CalloopSpec
import Gpui.Atlas.WgpuAtlasFailure
import Gpui.Scheduler.VirtualTimeSpec
import Gpui.Window.DeferredDrawsSpec
import Gpui.Window.TransactSpec
import Gpui.App.WindowTabsSpec
import Gpui.App.NewEntities
import Gpui.App.CurrentWindow
import Gpui.Window.TrackingIndex
import Gpui.Window.StaleViews
import Gpui.Window.PendingInputSpec
import Gpui.Window.ModifierGesture
import Gpui.Window.A11yUpdate
import Gpui.Window.AssetsSpec
import Gpui.Refineable.Laws
import Gpui.Text.PaintLineSpec
import Gpui.Elements.StyledTextSpec
import Gpui.Text.CombineHighlights
import Gpui.Elements.ClicksSpec
import Gpui.Elements.KeyClicks
import Gpui.Elements.Drops
import Gpui.Elements.ContentSize
import Gpui.Elements.ScrollToItem
import Gpui.Elements.AnchoredSpec
import Gpui.Elements.Img
import Gpui.Scene.Dashes
import Gpui.Text.ColorStrings
import Gpui.Memory.ArenaSpec
import Gpui.Window.TaffyLayoutSpec
import Gpui.Profiler.Statistics
import Gpui.Profiler.Collectors
import Gpui.Text.FontFallback
