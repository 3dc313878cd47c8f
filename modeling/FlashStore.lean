import FlashStore.Bench
import FlashStore.Proofs.Adjustments
import FlashStore.Proofs.Calibrations
import FlashStore.Proofs.Generations
import FlashStore.Proofs.Integrity
import FlashStore.Proofs.Interruptions
import FlashStore.Proofs.LastSaved
import FlashStore.Proofs.LatestRecords
import FlashStore.Proofs.PowerCuts
import FlashStore.Proofs.ProperCalls
import FlashStore.Proofs.Restarts
import FlashStore.Proofs.ScreenValues
import FlashStore.Proofs.Upgrades
import FlashStore.Proofs.Versions
import FlashStore.Proofs.Space
import FlashStore.Proofs.StoredWrites
import FlashStore.Proofs.Remounting
import FlashStore.Proofs.Canonical
import FlashStore.Proofs.CanonicalStores
import FlashStore.Proofs.CompactImages
import FlashStore.Proofs.LowSpace
import FlashStore.Proofs.Rejections
import FlashStore.Proofs.ReadPaths
import FlashStore.Proofs.Protection
import FlashStore.Proofs.InterruptedSaves
import FlashStore.Proofs.ReadingBack
import FlashStore.Proofs.RangedCommands
import FlashStore.Proofs.CallSequences
