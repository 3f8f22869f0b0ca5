import RecordFile.Main
import RecordFile.Proofs.Slots
import RecordFile.Proofs.Numbering
import RecordFile.Proofs.Issuing
import RecordFile.Proofs.Fairness
import RecordFile.Proofs.Committing
import RecordFile.Proofs.Guarding
import RecordFile.Proofs.Readback
import RecordFile.Proofs.WalkDuringGrowth
import RecordFile.Proofs.Bytewise
import RecordFile.Proofs.Confining
import RecordFile.Proofs.Distributing
import RecordFile.Proofs.Grammar
import RecordFile.Proofs.Opened
import RecordFile.Proofs.WalkOutcome
import RecordFile.Proofs.AppendOutcome
import RecordFile.Proofs.LocateOutcome
import RecordFile.Proofs.Agreement
import RecordFile.Proofs.NoOverflow
import RecordFile.Proofs.Adding
import RecordFile.Proofs.Reoffering
import RecordFile.Proofs.Recounting
import RecordFile.Proofs.OpenedHead
import RecordFile.Proofs.Attaching
import RecordFile.Proofs.Rewinding
import RecordFile.Proofs.Bracketing
import RecordFile.Proofs.Retrying
import RecordFile.Proofs.StreamPosition
import RecordFile.Proofs.Founding
import RecordFile.Proofs.Batching
import RecordFile.Proofs.Pacing
import RecordFile.Proofs.DescriptorReuse
import RecordFile.Proofs.LastError
import RecordFile.Proofs.GrowthSize
import RecordFile.Proofs.Doubling
