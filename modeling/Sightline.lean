import Sightline.Scalar
import Sightline.Scalar.Order
import Sightline.Vec3
import Sightline.Box
import Sightline.Fault
import Sightline.Triangle
import Sightline.Mesh
import Sightline.Scene
import Sightline.Tree
import Sightline.Tree.Split
import Sightline.Tree.Build
import Sightline.Hierarchy
import Sightline.Hierarchy.Flaw
import Sightline.Hierarchy.Layout
import Sightline.Hierarchy.Check
import Sightline.Hierarchy.Bytes
import Sightline.Hierarchy.Search
import Sightline.Cache
import Sightline.Camera
import Sightline.Tile
import Sightline.Image
import Sightline.Shading
import Sightline.Render
import Sightline.Text.Blank
import Sightline.Text.Numeral
import Sightline.Disk
import Sightline.Path
import Sightline.Text.Lines
import Sightline.Obj.Statement
import Sightline.Obj.Material
import Sightline.Obj.Model
import Sightline.Obj
import Sightline.Files
import Sightline.Bytes
import Sightline.Image.Png
import Sightline.Image.Bitmap
import Sightline.Image.Format
import Sightline.Options
import Sightline.Session
import Sightline.Main
import Sightline.Proofs.Plan
import Sightline.Proofs.Survey
import Sightline.Proofs.Check
import Sightline.Proofs.Walk
import Sightline.Proofs.Build
import Sightline.Proofs.Nearest
import Sightline.Proofs.Extremes
import Sightline.Proofs.Shadow
import Sightline.Proofs.RoundTrip
import Sightline.Proofs.Framing
import Sightline.Proofs.Hull
import Sightline.Proofs.Bounds
import Sightline.Proofs.Colors
import Sightline.Proofs.Upkeep
import Sightline.Proofs.Mosaic
import Sightline.Proofs.Picture
import Sightline.Proofs.Missed
import Sightline.Proofs.Cheapest
import Sightline.Proofs.Edited
import Sightline.Proofs.Alike
import Sightline.Proofs.Reordered
import Sightline.Proofs.Rounding
import Sightline.Proofs.Growth
import Sightline.Proofs.Brightness
import Sightline.Proofs.Sizes
import Sightline.Proofs.Filtered
import Sightline.Proofs.Outward
import Sightline.Proofs.Difference
import Sightline.Proofs.Pruned
import Sightline.Proofs.Flagged
import Sightline.Proofs.Edits
import Sightline.Proofs.Smoothed
import Sightline.Proofs.Fractions
import Sightline.Proofs.Milestones
import Sightline.Proofs.Origins
import Sightline.Proofs.Areas
import Sightline.Proofs.Merged
import Sightline.Proofs.Overflow
import Sightline.Proofs.Centers
import Sightline.Proofs.Rescaled
import Sightline.Proofs.Patches
import Sightline.Proofs.Sampling
