import Thrille.Lib.OrderedMap
import Thrille.Lib.Acyclic
import Thrille.Lib.BoundedSearch
import Thrille.FairScheduler.Theorems
import Thrille.Schedule.Signals
import Thrille.Schedule.Switches
import Thrille.Schedule.Equality
import Thrille.Chess.Theorems
import Thrille.Chess.Errors
import Thrille.Chess.Rebuilt
import Thrille.Chess.ChristosTheorems
import Thrille.Core.Handles
import Thrille.Racer.Release
import Thrille.Racer.Locksets
import Thrille.Racer.Modtrack
import Thrille.Racer.Races
import Thrille.Serializer.Exclusion
import Thrille.Serializer.Destroyed
import Thrille.Serializer.CreateResult
import Thrille.Serializer.BarrierRuns
import Thrille.Serializer.BroadcastEnds
import Thrille.Serializer.Proceeds
import Thrille.Files.RoundTrip
import Thrille.Files.ParseFile
import Thrille.Files.Addresses
import Thrille.Files.Targets
import Thrille.Files.RelaxedRoundTrip
import Thrille.Relaxed.Replay
import Thrille.Relaxed.Choices
import Thrille.Tinertia.Theorems
import Thrille.Tinertia.Totals
import Thrille.Tinertia.Synthesize
import Thrille.Randact.Theorems
import Thrille.Replay.Outcomes
import Thrille.Replay.Rewritten
