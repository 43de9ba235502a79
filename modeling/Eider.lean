import Eider.Guarantees.RequestIsolation
import Eider.Guarantees.ActorStreams
import Eider.Guarantees.StringArguments
import Eider.Guarantees.PageSlots
import Eider.Guarantees.TailTransactions
import Eider.Guarantees.SlotLifecycle
import Eider.Guarantees.ArtifactFreshness
import Eider.Guarantees.FormatSafety
import Eider.Guarantees.PrefixRows
import Eider.Guarantees.Step37Account
import Eider.Guarantees.MuseBudget
import Eider.Guarantees.MuseTick
import Eider.Guarantees.SpeculativeLaw
import Eider.Guarantees.Deepseek4Waiting
import Eider.Guarantees.SequenceCustody
import Eider.Guarantees.ScaleLayout
import Eider.Guarantees.NibbleOrder
import Eider.Guarantees.Nvfp4Artifacts
import Eider.Guarantees.QuantFormats
import Eider.Guarantees.ResponseHistory
import Eider.Guarantees.BatchAppends
import Eider.Guarantees.SequenceAppends
import Eider.Guarantees.MuseSegments
import Eider.Guarantees.BackendSlots
import Eider.Guarantees.DoryScratch
import Eider.Guarantees.DoryWaves
import Eider.Guarantees.GenerationSessions
import Eider.Guarantees.NemotronTicks
import Eider.Guarantees.LiveBranches
import Eider.Guarantees.ExpertLayers
import Eider.Guarantees.DraftVerification
import Eider.Guarantees.ToolTrigger
import Eider.Guarantees.StopChunks
import Eider.Guarantees.PrefillSelection
import Eider.Guarantees.ArgumentLanguage
import Eider.Guarantees.GemmaCalls
import Eider.Guarantees.RequestRotation
import Eider.Guarantees.Q3Codes
