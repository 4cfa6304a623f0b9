import ValueStore.Cells
import ValueStore.Proofs.Dictionary.Conservation
import ValueStore.Proofs.Dictionary.Iteration
import ValueStore.Proofs.Dictionary.Rebuild
import ValueStore.Proofs.Dictionary.Removal
import ValueStore.Proofs.Dictionary.Simulation
import ValueStore.Proofs.Sequence.Draining
import ValueStore.Proofs.Sequence.ReadBack
import ValueStore.Proofs.Tree.Check
import ValueStore.Proofs.Tree.Depth
import ValueStore.Proofs.Tree.Repair
import ValueStore.Proofs.Tree.Table
import ValueStore.Proofs.Value.Encoding
import ValueStore.Proofs.Value.FirstDifference
import ValueStore.Proofs.Value.Hashable
import ValueStore.Proofs.Value.OneByte
import ValueStore.Proofs.Value.Serialize
import ValueStore.Tree.BlackHeight
import ValueStore.Proofs.Sequence.Joining
