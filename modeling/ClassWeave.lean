import ClassWeave.ClassFile.Builder
import ClassWeave.Main
import ClassWeave.Proofs.KeptFrames
import ClassWeave.Proofs.LayerIsolation
import ClassWeave.Proofs.PoolPlaces
import ClassWeave.Proofs.Refinement
import ClassWeave.Proofs.SettledSlots
import ClassWeave.Proofs.StackDepth
import ClassWeave.Proofs.ClassFileWriting
import ClassWeave.Proofs.HandlerOrder
import ClassWeave.Proofs.CacheContents
import ClassWeave.Proofs.Mentions
import ClassWeave.Proofs.CacheHistory
import ClassWeave.Proofs.FirstFaults
import ClassWeave.Proofs.LayerRecord
import ClassWeave.Proofs.FailingMethods
import ClassWeave.Proofs.LateClasses
import ClassWeave.Proofs.TypeJoins
import ClassWeave.Proofs.ClassBuilding
import ClassWeave.Proofs.BodyRelaying
import ClassWeave.Proofs.LedgerHistory
import ClassWeave.Proofs.ClassFileRereading
import ClassWeave.Proofs.JoinedLocals
import ClassWeave.Proofs.CreationSites
import ClassWeave.Proofs.FrameSpellings
import ClassWeave.Proofs.PayloadReading
import ClassWeave.Proofs.SlotForm
import ClassWeave.Proofs.StackWords
import ClassWeave.Proofs.MergedStacks
import ClassWeave.Proofs.ArrayElements
import ClassWeave.Proofs.SnippetEmissions
import ClassWeave.Proofs.AnchoredOrder
import ClassWeave.Proofs.PinnedFrames
import ClassWeave.Proofs.ConstructorPrologue
import ClassWeave.Proofs.GuardedRanges
import ClassWeave.Proofs.CommonSuperclasses
import ClassWeave.Proofs.SupertypeDistances
import ClassWeave.Proofs.Truncation
import ClassWeave.Proofs.CollectedLabels
