import Thrille.FairScheduler
import Thrille.Serializer.System

namespace Thrille

namespace ExecutionTracker

def virtual : Virtual Unit where
  followingChoiceFromLog _ s := (s.fenmap, ())
  pickNextSchedulingChoice _ s :=
    ((s.enabled.toList.find? fun entry => entry.2).map Prod.fst, s.fenmap, ())
  selectThreadWaitingOnCond _ s := (selectThreadWaitingOnCond s, ())
  logged s := s.enabled
  admits _ _ := true

end ExecutionTracker

namespace ChessTracker

def virtual : Virtual FairScheduler where
  followingChoiceFromLog fairscheduler s :=
    let (_, s, fairscheduler) := fairscheduler.nonpreemptiveFairSchedule s
    (s.fenmap, fairscheduler)
  pickNextSchedulingChoice fairscheduler s :=
    let (nextchoice, s, fairscheduler) := fairscheduler.nonpreemptiveFairSchedule s
    (nextchoice, s.fenmap, fairscheduler)
  selectThreadWaitingOnCond fairscheduler s :=
    (ExecutionTracker.selectThreadWaitingOnCond s, fairscheduler)
  logged s := (Logger.fairScheduled s).enabled
  admits s target := s.fenmap.getD target false

end ChessTracker

end Thrille
