import ModelExport.HostModules
import ModelExport.Main
import ModelExport.Recipe.Standard
import ModelExport.Tracing
import ModelExport.Workbench.Graph
import ModelExport.Proofs.Ordering
import ModelExport.Proofs.Wiring.Mapping
import ModelExport.Proofs.Renaming.Frame
import ModelExport.Proofs.Weights
import ModelExport.Proofs.Tracing
import ModelExport.Proofs.Reductions
import ModelExport.Proofs.Windows
import ModelExport.Proofs.Decoding.Cells
import ModelExport.Proofs.Decoding.Deltas
import ModelExport.Proofs.Broadcasting
import ModelExport.Proofs.BatchFilling
import ModelExport.Proofs.Softmax
import ModelExport.Proofs.Contraction
import ModelExport.Proofs.Recurrent.Distribution
import ModelExport.Proofs.Recurrent.FinalStates
import ModelExport.Proofs.Flattening
import ModelExport.Proofs.PriorBoxes.Operators
import ModelExport.Proofs.PooledSizes
import ModelExport.Proofs.Clipping
import ModelExport.Proofs.Suppression.Classes
import ModelExport.Proofs.Alignment
import ModelExport.Proofs.Updating
import ModelExport.Proofs.IndexedShapes
import ModelExport.Proofs.Scopes
import ModelExport.Proofs.AxesInputs
