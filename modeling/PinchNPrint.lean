import PinchNPrint.Scheduler.Views
import PinchNPrint.Store.Authority
import PinchNPrint.Store.Disposal
import PinchNPrint.Store.Poison
import PinchNPrint.Store.Publication
import PinchNPrint.Layer.EntityIds
import PinchNPrint.GCode.Extruder
import PinchNPrint.Region.Precedence
import PinchNPrint.Scheduler.Canonical
import PinchNPrint.Scheduler.PlanOrder
import PinchNPrint.Config.BaseKeys
import PinchNPrint.Scheduler.Edges
import PinchNPrint.Scheduler.Transitive
import PinchNPrint.Scheduler.Dedup
import PinchNPrint.Layer.DefaultOrder
import PinchNPrint.Config.Slots
import PinchNPrint.Config.WireDefaults
import PinchNPrint.Config.HeightProfile
import PinchNPrint.Linker.LockPassing
import PinchNPrint.Layer.SupportOutput
import PinchNPrint.Layer.SupportConflicts
import PinchNPrint.Region.IdRange
import PinchNPrint.Region.MappedChildren
import PinchNPrint.Region.WallInset
import PinchNPrint.Region.SliceCommits
import PinchNPrint.Region.Variants
import PinchNPrint.Layer.MergeLocks
import PinchNPrint.Layer.ReadBack
import PinchNPrint.Layer.SyntheticRows
import PinchNPrint.Layer.SpeedProfiles
import PinchNPrint.GCode.Rotation
import PinchNPrint.GCode.Thinning
import PinchNPrint.GCode.M73
import PinchNPrint.Postpass.TextModules
import PinchNPrint.Mesh.EvenContours
import PinchNPrint.Mesh.EndTopologies
import PinchNPrint.Mesh.Segments
import PinchNPrint.Support.Territory
import PinchNPrint.Support.Demands
import PinchNPrint.Support.Arrival
import PinchNPrint.GCode.Colpic
import PinchNPrint.GCode.ConfigBlock
import PinchNPrint.Walls.Beads
import PinchNPrint.Walls.Closing
import PinchNPrint.Walls.Reordering
import PinchNPrint.Loader.Strokes
import PinchNPrint.Loader.Resolution
import PinchNPrint.Mesh.Simplify
import PinchNPrint.Mesh.PolygonTree
import PinchNPrint.Mesh.ClosestPoint
import PinchNPrint.GCode.Placeholders
import PinchNPrint.Loader.Subdivision
import PinchNPrint.Prepass.PlannerPaths
import PinchNPrint.Mesh.RepairPaint
